import MediaFramework.Bufferpool.Accounts

/-!
# What is announced of the invalidated buffers

A flush invalidates the buffers there are. Before the ids wrap, each of their ids is in one range,
which is announced when the last buffer of the range has gone, and none of them is handed out again.
-/

namespace MediaFramework.Bufferpool

open BufferPool

variable {pool pool' : BufferPool} {buffer buffer' : InternalBuffer}
variable {connectionId : ConnectionId} {bufferId b fromId toId mSeq mStartSeq : BufferId}
variable {mBuffers : KeyedVector BufferId InternalBuffer} {mFreeBuffers : Finset BufferId}
variable {mPendings : List Pending} {channel : List InvalidationMessage}

/-! ### Ranges -/

theorem isBufferInRange_of_lt (h : fromId < toId) :
    isBufferInRange fromId toId b = (decide (fromId ≤ b) && decide (b < toId)) := by
  rw [isBufferInRange, if_pos h]

/-- How many buffers of a range are there. -/
def leftIn (mBuffers : KeyedVector BufferId InternalBuffer) (fromId toId : BufferId) : Nat :=
  (mBuffers.keys.filter fun b => isBufferInRange fromId toId b = true).card

theorem leftIn_set (h : mBuffers.find? bufferId ≠ none) :
    leftIn (mBuffers.set bufferId buffer) fromId toId = leftIn mBuffers fromId toId := by
  rw [leftIn, leftIn, KeyedVector.keys_set,
    Finset.insert_eq_of_mem ((mBuffers.mem_keys bufferId).mpr h)]

theorem leftIn_set_out (h : isBufferInRange fromId toId bufferId = false) :
    leftIn (mBuffers.set bufferId buffer) fromId toId = leftIn mBuffers fromId toId := by
  rw [leftIn, leftIn, KeyedVector.keys_set, Finset.filter_insert, if_neg (by simp [h])]

theorem leftIn_mapEntries (f : BufferId → InternalBuffer → InternalBuffer) :
    leftIn (mBuffers.mapEntries f) fromId toId = leftIn mBuffers fromId toId := by
  rw [leftIn, leftIn, KeyedVector.keys_mapEntries]

theorem leftIn_remove_in (hthere : mBuffers.find? bufferId ≠ none)
    (h : isBufferInRange fromId toId bufferId = true) :
    leftIn (mBuffers.remove bufferId) fromId toId + 1 = leftIn mBuffers fromId toId := by
  rw [leftIn, leftIn, KeyedVector.keys_remove, Finset.filter_erase]
  refine Finset.card_erase_add_one (Finset.mem_filter.mpr ⟨?_, h⟩)
  exact (mBuffers.mem_keys bufferId).mpr hthere

theorem leftIn_remove_out (mBuffers : KeyedVector BufferId InternalBuffer)
    (h : isBufferInRange fromId toId bufferId = false) :
    leftIn (mBuffers.remove bufferId) fromId toId = leftIn mBuffers fromId toId := by
  rw [leftIn, leftIn, KeyedVector.keys_remove, Finset.filter_erase, Finset.erase_eq_of_notMem]
  simp [h]

/-- The range knows how many buffers it waits for, and there are some. -/
structure Waits (mBuffers : KeyedVector BufferId InternalBuffer) (pending : Pending) : Prop where
  left : pending.mLeft = leftIn mBuffers pending.mFrom pending.mTo
  pos : leftIn mBuffers pending.mFrom pending.mTo ≠ 0

def Pending.range (pending : Pending) : BufferId × BufferId := (pending.mFrom, pending.mTo)

def InvalidationMessage.range (message : InvalidationMessage) : BufferId × BufferId :=
  (message.fromBufferId, message.toBufferId)

/-- The ranges that have been announced and those that wait. -/
def ranges (mPendings : List Pending) (channel : List InvalidationMessage) :
    List (BufferId × BufferId) :=
  channel.map InvalidationMessage.range ++ mPendings.map Pending.range

/-- A buffer goes away. The ranges that waited for nothing else are announced. -/
theorem invalidatePendings_spec (hthere : mBuffers.find? bufferId ≠ none) (mInvalidationId : Nat)
    (h : ∀ pending ∈ mPendings, Waits mBuffers pending) :
    (∀ pending ∈ (Invalidation.invalidatePendings bufferId mInvalidationId mPendings).1,
      Waits (mBuffers.remove bufferId) pending) ∧
    (∀ message ∈ (Invalidation.invalidatePendings bufferId mInvalidationId mPendings).2.2,
      leftIn (mBuffers.remove bufferId) message.fromBufferId message.toBufferId = 0) ∧
    (ranges (Invalidation.invalidatePendings bufferId mInvalidationId mPendings).1
      (Invalidation.invalidatePendings bufferId mInvalidationId mPendings).2.2).Perm
        (mPendings.map Pending.range) := by
  induction mPendings generalizing mInvalidationId with
  | nil => simp [Invalidation.invalidatePendings, ranges]
  | cons pending mPendings ih =>
    obtain ⟨hfirst, hrest⟩ := List.forall_mem_cons.mp h
    rw [Invalidation.invalidatePendings]
    by_cases hrange : isBufferInRange pending.mFrom pending.mTo bufferId = true
    · have hremove := leftIn_remove_in hthere hrange
      have hleft := hfirst.left
      rw [if_pos hrange]
      by_cases hlast : pending.mLeft - 1 = 0
      · -- the last buffer of the range
        rw [if_pos hlast]
        generalize (if pending.mNeedsAck = true then (Invalidation.nextId mInvalidationId,
          Invalidation.nextId mInvalidationId) else (mInvalidationId, 0)) = ids
        obtain ⟨hpendings, hmessages, hperm⟩ := ih ids.1 hrest
        refine ⟨hpendings, List.forall_mem_cons.mpr ⟨?_, hmessages⟩, hperm.cons _⟩
        show leftIn (mBuffers.remove bufferId) pending.mFrom pending.mTo = 0
        omega
      · rw [if_neg hlast]
        obtain ⟨hpendings, hmessages, hperm⟩ := ih mInvalidationId hrest
        refine ⟨List.forall_mem_cons.mpr ⟨⟨?_, ?_⟩, hpendings⟩, hmessages, ?_⟩
        · show pending.mLeft - 1 = (leftIn (mBuffers.remove bufferId) pending.mFrom pending.mTo : Int)
          omega
        · show leftIn (mBuffers.remove bufferId) pending.mFrom pending.mTo ≠ 0
          omega
        · exact List.perm_middle.trans (hperm.cons _)
    · rw [if_neg hrange]
      have hremove := leftIn_remove_out mBuffers (Bool.eq_false_iff.mpr hrange)
      obtain ⟨hpendings, hmessages, hperm⟩ := ih mInvalidationId hrest
      refine ⟨List.forall_mem_cons.mpr ⟨⟨?_, ?_⟩, hpendings⟩, hmessages, ?_⟩
      · rw [hremove, hfirst.left]
      · rw [hremove]
        exact hfirst.pos
      · exact List.perm_middle.trans (hperm.cons _)

/-! ### What the pool keeps -/

/-- The ids before `mStartSeq` are those of the flushed buffers. -/
structure Announced (mBuffers : KeyedVector BufferId InternalBuffer) (mFreeBuffers : Finset BufferId)
    (mSeq mStartSeq : BufferId) (mPendings : List Pending) (channel : List InvalidationMessage) :
    Prop where
  start_le : mStartSeq ≤ mSeq
  lt_seq : ∀ b buffer, mBuffers.find? b = some buffer → b < mSeq
  invalidated : ∀ b buffer, mBuffers.find? b = some buffer →
    (buffer.mInvalidated = true ↔ b < mStartSeq)
  free : ∀ b ∈ mFreeBuffers, mStartSeq ≤ b
  pending : ∀ pending ∈ mPendings, Waits mBuffers pending
  posted : ∀ message ∈ channel, leftIn mBuffers message.fromBufferId message.toBufferId = 0
  flushed : ∀ r ∈ ranges mPendings channel, r.1 < r.2 ∧ r.2 ≤ mStartSeq
  once : ∀ b < mStartSeq, (ranges mPendings channel).countP (fun r => r.1 ≤ b ∧ b < r.2) = 1

abbrev Announces (pool : BufferPool) : Prop :=
  Announced pool.mBuffers pool.mFreeBuffers pool.mSeq pool.mStartSeq pool.mInvalidation.mPendings
    pool.mInvalidation.channel

/-- No range has a buffer that has not been flushed. -/
theorem Announced.range_out
    (h : Announced mBuffers mFreeBuffers mSeq mStartSeq mPendings channel)
    (hrange : (fromId, toId) ∈ ranges mPendings channel) (hstart : mStartSeq ≤ b) :
    isBufferInRange fromId toId b = false := by
  obtain ⟨hlt, hle⟩ := h.flushed _ hrange
  dsimp only at hlt hle
  rw [isBufferInRange_of_lt hlt, Bool.and_eq_false_iff]
  exact .inr (decide_eq_false (Nat.not_lt.mpr (hle.trans hstart)))

/-- The buffers change without a change to those of the ranges. -/
theorem Announced.congr_left (mBuffers' : KeyedVector BufferId InternalBuffer)
    (h : Announced mBuffers mFreeBuffers mSeq mStartSeq mPendings channel)
    (hleft : ∀ fromId toId, (fromId, toId) ∈ ranges mPendings channel →
      leftIn mBuffers' fromId toId = leftIn mBuffers fromId toId) :
    (∀ pending ∈ mPendings, Waits mBuffers' pending) ∧
      ∀ message ∈ channel, leftIn mBuffers' message.fromBufferId message.toBufferId = 0 := by
  refine ⟨fun pending hmem => ?_, fun message hmem => ?_⟩
  · have hsame := hleft pending.mFrom pending.mTo
      (List.mem_append_right _ (List.mem_map_of_mem hmem))
    constructor
    · rw [hsame, (h.pending pending hmem).left]
    · rw [hsame]
      exact (h.pending pending hmem).pos
  · rw [hleft _ _ (List.mem_append_left _ (List.mem_map_of_mem hmem))]
    exact h.posted message hmem

/-- A buffer changes, but not in whether it is invalidated. -/
theorem Announced.set (h : Announced mBuffers mFreeBuffers mSeq mStartSeq mPendings channel)
    (hfind : mBuffers.find? bufferId = some buffer)
    (hsame : buffer'.mInvalidated = buffer.mInvalidated) :
    Announced (mBuffers.set bufferId buffer') mFreeBuffers mSeq mStartSeq mPendings channel := by
  obtain ⟨hpending, hposted⟩ := h.congr_left (mBuffers.set bufferId buffer') fun _ _ _ => leftIn_set (by simp [hfind])
  refine ⟨h.start_le, fun b buffer₂ hfind₂ => ?_, fun b buffer₂ hfind₂ => ?_, h.free, hpending,
    hposted, h.flushed, h.once⟩ <;> rw [KeyedVector.find?_set] at hfind₂ <;> split at hfind₂
  · next heq =>
    rw [heq]
    exact h.lt_seq bufferId buffer hfind
  · exact h.lt_seq b buffer₂ hfind₂
  · next heq =>
    cases hfind₂
    rw [heq, hsame]
    exact h.invalidated bufferId buffer hfind
  · exact h.invalidated b buffer₂ hfind₂

/-- A buffer that has been flushed goes away. -/
theorem Announced.removed (h : Announced mBuffers mFreeBuffers mSeq mStartSeq mPendings channel)
    (hfind : mBuffers.find? bufferId = some buffer) (mInvalidationId : Nat) :
    Announced (mBuffers.remove bufferId) mFreeBuffers mSeq mStartSeq
      (Invalidation.invalidatePendings bufferId mInvalidationId mPendings).1
      (channel ++ (Invalidation.invalidatePendings bufferId mInvalidationId mPendings).2.2) := by
  have hfound : ∀ b buffer₂, (mBuffers.remove bufferId).find? b = some buffer₂ →
      mBuffers.find? b = some buffer₂ := by
    intro b buffer₂ hfind₂
    rw [KeyedVector.find?_remove] at hfind₂
    split at hfind₂
    · cases hfind₂
    · exact hfind₂
  obtain ⟨hpending, hposted, hperm⟩ :=
    invalidatePendings_spec (Option.ne_none_iff_exists'.mpr ⟨buffer, hfind⟩) mInvalidationId h.pending
  have hranges := (hperm.append_left (channel.map InvalidationMessage.range)).trans
    (List.Perm.refl (ranges mPendings channel))
  rw [ranges, ← List.append_assoc, ← List.map_append] at hranges
  refine ⟨h.start_le, fun b buffer₂ hb => h.lt_seq b buffer₂ (hfound b buffer₂ hb),
    fun b buffer₂ hb => h.invalidated b buffer₂ (hfound b buffer₂ hb), h.free, hpending, ?_,
    fun r hr => h.flushed r (hranges.mem_iff.mp hr), fun b hb => ?_⟩
  · intro message hmem
    obtain hmem | hmem := List.mem_append.mp hmem
    · have hsubset : leftIn (mBuffers.remove bufferId) message.fromBufferId message.toBufferId ≤
          leftIn mBuffers message.fromBufferId message.toBufferId := by
        rw [leftIn, leftIn, KeyedVector.keys_remove]
        exact Finset.card_le_card (Finset.filter_subset_filter _ (Finset.erase_subset _ _))
      rw [h.posted message hmem] at hsubset
      exact Nat.le_zero.mp hsubset
    · exact hposted message hmem
  · rw [ranges, hranges.countP_eq]
    exact h.once b hb

/-- A buffer that has not been flushed goes away. -/
theorem Announced.evicted (h : Announced mBuffers mFreeBuffers mSeq mStartSeq mPendings channel)
    (hstart : mStartSeq ≤ bufferId) :
    Announced (mBuffers.remove bufferId) (mFreeBuffers.erase bufferId) mSeq mStartSeq mPendings
      channel := by
  obtain ⟨hpending, hposted⟩ := h.congr_left (mBuffers.remove bufferId)
    fun _ _ hrange => leftIn_remove_out _ (h.range_out hrange hstart)
  refine ⟨h.start_le, fun b buffer hfind => ?_, fun b buffer hfind => ?_,
    fun b hb => h.free b (Finset.mem_of_mem_erase hb), hpending, hposted, h.flushed, h.once⟩ <;>
    rw [KeyedVector.find?_remove] at hfind <;> split at hfind
  · cases hfind
  · exact h.lt_seq b buffer hfind
  · cases hfind
  · exact h.invalidated b buffer hfind

/-- A new buffer. -/
theorem Announced.allocated (h : Announced mBuffers mFreeBuffers mSeq mStartSeq mPendings channel)
    (hvalid : buffer.mInvalidated = false) :
    Announced (mBuffers.set mSeq buffer) mFreeBuffers (mSeq + 1) mStartSeq mPendings channel := by
  have hstart := h.start_le
  obtain ⟨hpending, hposted⟩ := h.congr_left (mBuffers.set mSeq buffer)
    fun _ _ hrange => leftIn_set_out (h.range_out hrange hstart)
  refine ⟨Nat.le_succ_of_le hstart, fun b buffer₂ hfind => ?_, fun b buffer₂ hfind => ?_, h.free,
    hpending, hposted, h.flushed, h.once⟩ <;> rw [KeyedVector.find?_set] at hfind <;> split at hfind
  · next heq => exact heq ▸ Nat.lt_succ_self _
  · exact Nat.lt_succ_of_lt (h.lt_seq b buffer₂ hfind)
  · next heq =>
    cases hfind
    simp [hvalid, heq, hstart]
  · exact h.invalidated b buffer₂ hfind

/-- The buffers from `mStartSeq` on are flushed. -/
theorem Announced.flush (h : Announced mBuffers mFreeBuffers mSeq mStartSeq mPendings channel)
    (hfree : mFreeBuffers = ∅) (hlt : mStartSeq < mSeq) (inv : Invalidation)
    (hpendings : inv.mPendings = mPendings) (hchannel : inv.channel = channel) :
    Announced (mBuffers.mapEntries (invalidateIn mStartSeq mSeq)) mFreeBuffers mSeq mSeq
      (inv.onInvalidationRequest true mStartSeq mSeq (leftIn mBuffers mStartSeq mSeq)).mPendings
      (inv.onInvalidationRequest true mStartSeq mSeq (leftIn mBuffers mStartSeq mSeq)).channel := by
  obtain ⟨hpending, hposted⟩ := h.congr_left
    (mBuffers.mapEntries (invalidateIn mStartSeq mSeq))
    fun _ _ _ => leftIn_mapEntries _
  have hfound : ∀ b buffer, (mBuffers.mapEntries (invalidateIn mStartSeq mSeq)).find? b = some buffer →
      b < mSeq ∧ buffer.mInvalidated = true := by
    intro b buffer hfind
    rw [KeyedVector.find?_mapEntries] at hfind
    obtain ⟨buffer₀, hfind₀, rfl⟩ := Option.map_eq_some_iff.mp hfind
    have hb := h.lt_seq b buffer₀ hfind₀
    refine ⟨hb, ?_⟩
    rw [invalidateIn, isBufferInRange_of_lt hlt]
    split
    · rfl
    · next hout =>
      -- a buffer before the range has been flushed before
      refine (h.invalidated b buffer₀ hfind₀).mpr ?_
      simp only [Bool.and_eq_true, decide_eq_true_eq, not_and] at hout
      by_contra hge
      exact hout (Nat.not_lt.mp hge) hb
  have honce : ∀ b < mSeq, ∀ rs : List (BufferId × BufferId),
      rs.Perm ((mStartSeq, mSeq) :: ranges mPendings channel) →
        rs.countP (fun r => r.1 ≤ b ∧ b < r.2) = 1 := by
    intro b hb rs hperm
    rw [hperm.countP_eq, List.countP_cons]
    by_cases hstart : b < mStartSeq
    · rw [h.once b hstart, if_neg (by simp [hstart])]
    · have hnone : (ranges mPendings channel).countP (fun r => r.1 ≤ b ∧ b < r.2) = 0 := by
        refine List.countP_eq_zero.mpr fun r hr => ?_
        have hle := (h.flushed r hr).2
        simp only [decide_eq_true_eq, not_and]
        exact fun _ => Nat.not_lt.mpr (hle.trans (Nat.not_lt.mp hstart))
      rw [hnone, if_pos (by simp [hb, Nat.not_lt.mp hstart])]
  have hflushed : ∀ r ∈ (mStartSeq, mSeq) :: ranges mPendings channel, r.1 < r.2 ∧ r.2 ≤ mSeq := by
    refine List.forall_mem_cons.mpr ⟨⟨hlt, Nat.le_refl _⟩, fun r hr => ?_⟩
    exact ⟨(h.flushed r hr).1, (h.flushed r hr).2.trans h.start_le⟩
  have hinvalidated : ∀ b buffer,
      (mBuffers.mapEntries (invalidateIn mStartSeq mSeq)).find? b = some buffer →
        (buffer.mInvalidated = true ↔ b < mSeq) := fun b buffer hfind =>
    iff_of_true (hfound b buffer hfind).2 (hfound b buffer hfind).1
  subst hpendings hchannel hfree
  rw [Invalidation.onInvalidationRequest, if_pos rfl]
  dsimp only
  by_cases hleft : leftIn mBuffers mStartSeq mSeq = 0
  · -- no buffer is left, and the range is announced at once
    rw [if_pos hleft]
    have hperm : (ranges inv.mPendings (inv.channel ++
        [⟨Invalidation.nextId inv.mInvalidationId, mStartSeq, mSeq⟩])).Perm
          ((mStartSeq, mSeq) :: ranges inv.mPendings inv.channel) := by
      rw [ranges, List.map_append, List.append_assoc]
      exact List.perm_middle
    refine ⟨Nat.le_refl _, fun b buffer hfind => (hfound b buffer hfind).1, hinvalidated,
      fun b hb => absurd hb (Finset.notMem_empty b), hpending, ?_,
      fun r hr => hflushed r (hperm.mem_iff.mp hr), fun b hb => honce b hb _ hperm⟩
    refine List.forall_mem_append.mpr ⟨hposted, List.forall_mem_singleton.mpr ?_⟩
    rw [leftIn_mapEntries]
    exact hleft
  · rw [if_neg hleft]
    have hperm : (ranges (inv.mPendings ++ [⟨true, mStartSeq, mSeq, leftIn mBuffers mStartSeq mSeq⟩])
        inv.channel).Perm ((mStartSeq, mSeq) :: ranges inv.mPendings inv.channel) := by
      rw [ranges, List.map_append, ← List.append_assoc]
      exact List.perm_append_singleton _ _
    refine ⟨Nat.le_refl _, fun b buffer hfind => (hfound b buffer hfind).1, hinvalidated,
      fun b hb => absurd hb (Finset.notMem_empty b), ?_, hposted,
      fun r hr => hflushed r (hperm.mem_iff.mp hr), fun b hb => honce b hb _ hperm⟩
    refine List.forall_mem_append.mpr ⟨hpending, List.forall_mem_singleton.mpr ⟨?_, ?_⟩⟩
    · rw [leftIn_mapEntries]
    · rw [leftIn_mapEntries]
      exact hleft

/-! ### Steps -/

/-- The counts of a buffer change. -/
theorem retire_announces (h : Announces pool) (hfind : pool.mBuffers.find? bufferId = some buffer)
    (hsame : buffer'.mInvalidated = buffer.mInvalidated) :
    Announces
      ({ pool with mBuffers := pool.mBuffers.set bufferId buffer' }.retire bufferId buffer') := by
  have hset := h.set hfind hsame
  have hfound : (pool.mBuffers.set bufferId buffer').find? bufferId = some buffer' := by
    rw [KeyedVector.find?_set, if_pos rfl]
  rw [BufferPool.retire]
  split
  · split
    · next hvalid =>
      refine { hset with free := fun b hb => ?_ }
      obtain rfl | hb := Finset.mem_insert.mp hb
      · have hnot := mt (hset.invalidated b buffer' hfound).mpr hvalid
        exact Nat.not_lt.mp hnot
      · exact h.free b hb
    · exact hset.removed hfound _
  · exact hset

theorem dropOwner_announces (h : Announces pool) (hdrop : pool.dropOwner bufferId = some pool') :
    Announces pool' := by
  obtain ⟨buffer, hfind, hdrop⟩ := Option.bind_eq_some_iff.mp hdrop
  cases hdrop
  exact retire_announces h hfind rfl

theorem dropTransaction_announces (h : Announces pool)
    (hdrop : pool.dropTransaction bufferId = some pool') : Announces pool' := by
  obtain ⟨buffer, hfind, hdrop⟩ := Option.bind_eq_some_iff.mp hdrop
  cases hdrop
  exact retire_announces h hfind rfl

theorem handleOwnBuffer_announces {added : Bool} (h : Announces pool)
    (hown : pool.handleOwnBuffer connectionId bufferId = some (pool', added)) : Announces pool' := by
  rw [handleOwnBuffer] at hown
  split at hown
  · cases hown
    exact h
  · obtain ⟨buffer, hfind, hown⟩ := Option.bind_eq_some_iff.mp hown
    cases hown
    exact h.set hfind rfl

theorem handleReleaseBuffer_announces {deleted : Bool} (h : Announces pool)
    (hrelease : pool.handleReleaseBuffer connectionId bufferId = some (pool', deleted)) :
    Announces pool' := by
  rw [handleReleaseBuffer] at hrelease
  split at hrelease
  · obtain ⟨dropped, hdrop, hrelease⟩ := Option.bind_eq_some_iff.mp hrelease
    cases hrelease
    have hdropped : Announces dropped := dropOwner_announces (by exact h) hdrop
    exact hdropped
  · cases hrelease
    exact h

theorem startTransaction_announces {message : BufferStatusMessage} (h : Announces pool)
    (hstart : pool.startTransaction message connectionId = some pool') : Announces pool' := by
  obtain ⟨buffer, hfind, hstart⟩ := Option.bind_eq_some_iff.mp hstart
  cases hstart
  exact h.set hfind rfl

theorem handleTransferTo_announces {message : BufferStatusMessage} {ret : Bool} (h : Announces pool)
    (hto : pool.handleTransferTo message = some (pool', ret)) : Announces pool' := by
  rw [handleTransferTo] at hto
  split at hto
  · cases hto
    exact h
  · split at hto
    · cases hto
      exact h
    · split at hto
      · cases hto
        exact h
      · split at hto
        · cases hto
          exact h
        · obtain ⟨started, hstart, hto⟩ := Option.bind_eq_some_iff.mp hto
          cases hto
          exact startTransaction_announces h hstart

theorem handleTransferFrom_announces {message : BufferStatusMessage} {ret : Bool}
    (h : Announces pool) (hfrom : pool.handleTransferFrom message = some (pool', ret)) :
    Announces pool' := by
  rw [handleTransferFrom] at hfrom
  split at hfrom
  · obtain ⟨started, hstart, hfrom⟩ := Option.bind_eq_some_iff.mp hfrom
    cases hfrom
    exact startTransaction_announces h hstart
  · split at hfrom <;> cases hfrom <;> exact h

theorem complete_announces {transactionId : TransactionId} {transaction : TransactionStatus}
    (h : Announces pool) : Announces (pool.complete transactionId transaction) := by
  rw [complete]
  split <;> exact h

theorem ownTransferred_announces {message : BufferStatusMessage} (h : Announces pool)
    (hown : pool.ownTransferred message = some pool') : Announces pool' := by
  rw [ownTransferred] at hown
  split at hown
  · obtain ⟨⟨owning, added⟩, hadded, rfl⟩ := Option.map_eq_some_iff.mp hown
    exact handleOwnBuffer_announces h hadded
  · cases hown
    exact h

theorem handleTransferResult_announces {message : BufferStatusMessage} {ret : Bool}
    (h : Announces pool) (hresult : pool.handleTransferResult message = some (pool', ret)) :
    Announces pool' := by
  rw [handleTransferResult] at hresult
  split at hresult
  · cases hresult
    exact h
  · split at hresult
    · obtain ⟨owning, hown, hresult⟩ := Option.bind_eq_some_iff.mp hresult
      obtain ⟨dropped, hdrop, hresult⟩ := Option.bind_eq_some_iff.mp hresult
      cases hresult
      have howning : Announces owning := by
        refine ownTransferred_announces (complete_announces ?_) hown
        exact h
      have hdropped := dropTransaction_announces howning hdrop
      exact hdropped
    · cases hresult
      exact h

theorem handleMessage_announces {message : BufferStatusMessage} {ret : Bool} (h : Announces pool)
    (hmessage : pool.handleMessage message = some (pool', ret)) : Announces pool' := by
  rw [handleMessage] at hmessage
  split at hmessage
  · exact handleReleaseBuffer_announces h hmessage
  · exact handleTransferTo_announces h hmessage
  · exact handleTransferFrom_announces h hmessage
  · exact handleTransferResult_announces h hmessage
  · exact handleTransferResult_announces h hmessage
  · cases hmessage
    show Announced _ _ _ _ (pool.mInvalidation.onAck _ _).mPendings (pool.mInvalidation.onAck _ _).channel
    rw [Invalidation.onAck]
    split
    · exact h
    · split <;> exact h
  all_goals
    cases hmessage
    exact h

theorem handleMessages_announces {messages : List BufferStatusMessage} (h : Announces pool)
    (hmessages : pool.handleMessages messages = some pool') : Announces pool' := by
  induction messages generalizing pool with
  | nil =>
    cases hmessages
    exact h
  | cons message messages ih =>
    obtain ⟨⟨next, _⟩, hmessage, hmessages⟩ := Option.bind_eq_some_iff.mp hmessages
    exact ih (handleMessage_announces h hmessage) hmessages

theorem processStatusMessages_announces {now : Int} (h : Announces pool)
    (hprocess : pool.processStatusMessages now = some pool') : Announces pool' := by
  rw [processStatusMessages] at hprocess
  refine handleMessages_announces ?_ hprocess
  exact h

theorem closeBuffers_announces {bufferIds : List BufferId} (h : Announces pool)
    (hclose : bufferIds.foldlM (closeBuffer connectionId) pool = some pool') : Announces pool' := by
  induction bufferIds generalizing pool with
  | nil =>
    cases hclose
    exact h
  | cons bufferId bufferIds ih =>
    rw [List.foldlM_cons] at hclose
    obtain ⟨next, hfirst, hclose⟩ := Option.bind_eq_some_iff.mp hclose
    refine ih ?_ hclose
    rw [closeBuffer] at hfirst
    split at hfirst
    · exact dropOwner_announces (by exact h) hfirst
    · cases hfirst
      exact h

theorem closeTransactions_announces {transactionIds : List TransactionId} (h : Announces pool)
    (hclose : transactionIds.foldlM closeTransaction pool = some pool') : Announces pool' := by
  induction transactionIds generalizing pool with
  | nil =>
    cases hclose
    exact h
  | cons transactionId transactionIds ih =>
    rw [List.foldlM_cons] at hclose
    obtain ⟨next, hfirst, hclose⟩ := Option.bind_eq_some_iff.mp hclose
    refine ih ?_ hclose
    rw [closeTransaction] at hfirst
    split at hfirst
    · cases hfirst
      exact h
    · obtain ⟨dropped, hdrop, hfirst⟩ := Option.bind_eq_some_iff.mp hfirst
      cases hfirst
      have hdropped := dropTransaction_announces (complete_announces h) hdrop
      exact hdropped

theorem handleClose_announces (h : Announces pool)
    (hclose : pool.handleClose connectionId = some pool') : Announces pool' := by
  obtain ⟨closed, hbuffers, hclose⟩ := Option.bind_eq_some_iff.mp hclose
  obtain ⟨ended, htransactions, hclose⟩ := Option.bind_eq_some_iff.mp hclose
  cases hclose
  have hclosed := closeBuffers_announces h hbuffers
  have hended : Announces ended := by
    refine closeTransactions_announces ?_ htransactions
    exact hclosed
  exact hended

/-! ### Evicting and flushing -/

theorem evict_announces (h : Announces pool) (hstart : pool.mStartSeq ≤ bufferId) :
    Announces (pool.evict bufferId) ∧ (pool.evict bufferId).mStartSeq = pool.mStartSeq := by
  rw [evict]
  split
  · exact ⟨h, rfl⟩
  · split
    · exact ⟨h.evicted hstart, rfl⟩
    · exact ⟨h, rfl⟩

theorem evictFree_announces {clearCache : Bool} {bufferIds : List BufferId} (h : Announces pool)
    (hstart : ∀ b ∈ bufferIds, pool.mStartSeq ≤ b) :
    Announces (evictFree clearCache pool bufferIds) ∧
      (evictFree clearCache pool bufferIds).mStartSeq = pool.mStartSeq := by
  induction bufferIds generalizing pool with
  | nil => exact ⟨h, rfl⟩
  | cons bufferId bufferIds ih =>
    obtain ⟨hfirst, hrest⟩ := List.forall_mem_cons.mp hstart
    rw [evictFree]
    split
    · exact ⟨h, rfl⟩
    · obtain ⟨hevict, hsame⟩ := evict_announces h hfirst
      obtain ⟨hall, hsame'⟩ := ih hevict (by rwa [hsame])
      exact ⟨hall, hsame'.trans hsame⟩

theorem cleanUp_announces (clearCache : Bool) (h : Announces pool) :
    Announces (pool.cleanUp clearCache) ∧
      (pool.cleanUp clearCache).mStartSeq = pool.mStartSeq := by
  rw [cleanUp]
  split
  · exact evictFree_announces (by exact h) fun b hb => h.free b ((Finset.mem_sort _).mp hb)
  · exact ⟨h, rfl⟩

theorem foldl_evict_announces {bufferIds : List BufferId} (h : Announces pool)
    (hstart : ∀ b ∈ bufferIds, pool.mStartSeq ≤ b) :
    Announces (bufferIds.foldl evict pool) ∧
      (bufferIds.foldl evict pool).mStartSeq = pool.mStartSeq ∧
      (bufferIds.foldl evict pool).mSeq = pool.mSeq := by
  induction bufferIds generalizing pool with
  | nil => exact ⟨h, rfl, rfl⟩
  | cons bufferId bufferIds ih =>
    obtain ⟨hfirst, hrest⟩ := List.forall_mem_cons.mp hstart
    obtain ⟨hevict, hsame⟩ := evict_announces h hfirst
    obtain ⟨hall, hstart', hseq⟩ := ih hevict (by rwa [hsame])
    refine ⟨hall, hstart'.trans hsame, hseq.trans ?_⟩
    rw [evict]
    split
    · rfl
    · split <;> rfl

/-- The evicted buffers are free no longer. -/
theorem foldl_evict_free (bufferIds : List BufferId) (h : Accounts pool) :
    (bufferIds.foldl evict pool).mFreeBuffers = pool.mFreeBuffers \ bufferIds.toFinset := by
  induction bufferIds generalizing pool with
  | nil => simp
  | cons bufferId bufferIds ih =>
    have hevict : (pool.evict bufferId).mFreeBuffers = pool.mFreeBuffers.erase bufferId := by
      rw [evict]
      split
      · next hnone =>
        refine (Finset.erase_eq_of_notMem (h.balanced.free.notMem fun buffer hfind => ?_)).symm
        rw [hnone] at hfind
        cases hfind
      · next buffer hfind =>
        split
        · rfl
        · next hbusy => exact (h.balanced.notFree hfind hbusy).symm
    rw [List.foldl_cons, ih (evict_accounts h), hevict, List.toFinset_cons]
    ext b
    simp only [Finset.mem_sdiff, Finset.mem_erase, Finset.mem_insert]
    tauto

theorem evict_mStartSeq (pool : BufferPool) (mStartSeq bufferId : BufferId) :
    evict { pool with mStartSeq := mStartSeq } bufferId =
      { pool.evict bufferId with mStartSeq := mStartSeq } := by
  rw [evict, evict]
  dsimp only
  cases pool.mBuffers.find? bufferId with
  | none => rfl
  | some buffer =>
    dsimp only
    split <;> rfl

theorem foldl_evict_mStartSeq (pool : BufferPool) (mStartSeq : BufferId) (bufferIds : List BufferId) :
    bufferIds.foldl evict { pool with mStartSeq := mStartSeq } =
      { bufferIds.foldl evict pool with mStartSeq := mStartSeq } := by
  induction bufferIds generalizing pool with
  | nil => rfl
  | cons bufferId bufferIds ih => rw [List.foldl_cons, evict_mStartSeq, ih, List.foldl_cons]

theorem flushBuffers_announces (haccounts : Accounts pool) (h : Announces pool) :
    Announces pool.flushBuffers := by
  rw [flushBuffers]
  split
  · next hne =>
    have hlt : pool.mStartSeq < pool.mSeq := lt_of_le_of_ne h.start_le hne
    have hin : ∀ b ∈ pool.mFreeBuffers, isBufferInRange pool.mStartSeq pool.mSeq b = true := by
      intro b hb
      obtain ⟨buffer, hfind, _⟩ := (haccounts.balanced.free b).mp hb
      rw [isBufferInRange_of_lt hlt]
      simp [h.free b hb, h.lt_seq b buffer hfind]
    have hall : (pool.mFreeBuffers.sort (· ≤ ·)).filter (isBufferInRange pool.mStartSeq pool.mSeq) =
        pool.mFreeBuffers.sort (· ≤ ·) :=
      List.filter_eq_self.mpr fun b hb => hin b ((Finset.mem_sort _).mp hb)
    obtain ⟨hevicted, hstart, hseq⟩ := foldl_evict_announces h
      fun b hb => h.free b ((Finset.mem_sort (· ≤ ·)).mp hb)
    have hnone := foldl_evict_free (pool.mFreeBuffers.sort (· ≤ ·)) haccounts
    rw [Finset.sort_toFinset, Finset.sdiff_self] at hnone
    rw [BufferPool.invalidate, hall, foldl_evict_mStartSeq]
    generalize (pool.mFreeBuffers.sort (· ≤ ·)).foldl evict pool = evicted at hevicted hstart hseq hnone
    rw [← hstart, ← hseq] at hlt ⊢
    have hflush := Announced.flush hevicted hnone hlt evicted.mInvalidation rfl rfl
    dsimp only
    rw [KeyedVector.length_filter]
    exact hflush
  · next heq =>
    rw [not_not] at heq
    rw [Announces, heq] at h
    exact h

theorem openConnection_announces (id : ConnectionId) (observer : Bool) (h : Announces pool) :
    Announces (pool.openConnection id observer).1 := by
  rw [openConnection]
  split <;> exact h

theorem onHandleAck_pendings (inv : Invalidation) :
    inv.onHandleAck.1.mPendings = inv.mPendings ∧ inv.onHandleAck.1.channel = inv.channel := by
  have hacks : ∀ (conIds : List ConnectionId) (inv : Invalidation),
      (conIds.foldl (fun inv conId =>
        { inv with mAcks := inv.mAcks.set conId inv.mInvalidationId }) inv).mPendings =
          inv.mPendings ∧
      (conIds.foldl (fun inv conId =>
        { inv with mAcks := inv.mAcks.set conId inv.mInvalidationId }) inv).channel = inv.channel := by
    intro conIds
    induction conIds with
    | nil => exact fun _ => ⟨rfl, rfl⟩
    | cons conId conIds ih => exact fun inv => ih _
  have hdeads : ∀ (conIds : List ConnectionId) (inv : Invalidation),
      (conIds.foldl (fun inv conId => inv.onClose (Invalidation.narrow conId)) inv).mPendings =
          inv.mPendings ∧
      (conIds.foldl (fun inv conId => inv.onClose (Invalidation.narrow conId)) inv).channel =
          inv.channel := by
    intro conIds
    induction conIds with
    | nil => exact fun _ => ⟨rfl, rfl⟩
    | cons conId conIds ih => exact fun inv => ih _
  rw [Invalidation.onHandleAck]
  split
  · exact ⟨(hdeads _ _).1.trans (hacks _ _).1, (hdeads _ _).2.trans (hacks _ _).2⟩
  · exact ⟨rfl, rfl⟩

variable {compatible : List (BitVec 8) → List (BitVec 8) → Bool} {params : List (BitVec 8)}

theorem firstCompatible_mem {bufferIds : List BufferId} (b : BufferId) (buffer : InternalBuffer)
    (h : pool.firstCompatible compatible params bufferIds = some (some (b, buffer))) :
    b ∈ bufferIds := by
  induction bufferIds with
  | nil => cases h
  | cons bufferId bufferIds ih =>
    obtain ⟨found, _, h⟩ := Option.bind_eq_some_iff.mp h
    split at h
    · cases h
      exact List.mem_cons_self
    · exact List.mem_cons_of_mem _ (ih h)

theorem getFreeBuffer_announces {result : Option BufferId} (h : Announces pool)
    (hget : pool.getFreeBuffer compatible params = some (pool', result)) :
    Announces pool' ∧ ∀ b, result = some b → pool'.mStartSeq ≤ b := by
  obtain ⟨first, hfirst, hget⟩ := Option.bind_eq_some_iff.mp hget
  split at hget <;> cases hget
  · exact ⟨h, fun b hb => by cases hb⟩
  · next bufferId buffer =>
    have hmem := (Finset.mem_sort _).mp (firstCompatible_mem bufferId buffer hfirst)
    refine ⟨{ h with free := fun b hb => h.free b (Finset.mem_of_mem_erase hb) }, fun b hb => ?_⟩
    cases hb
    exact h.free _ hmem

theorem handleOwnBuffer_mStartSeq {added : Bool}
    (hown : pool.handleOwnBuffer connectionId bufferId = some (pool', added)) :
    pool'.mStartSeq = pool.mStartSeq := by
  rw [handleOwnBuffer] at hown
  split at hown
  · cases hown
    rfl
  · obtain ⟨buffer, _, hown⟩ := Option.bind_eq_some_iff.mp hown
    cases hown
    rfl

/-- What is handed out has not been flushed. -/
theorem allocate_announces {now : Int} {result : Option BufferId} (h : Announces pool)
    (hallocate : pool.allocate compatible connectionId params now = some (pool', result)) :
    Announces pool' ∧ ∀ b, result = some b → pool'.mStartSeq ≤ b := by
  obtain ⟨processed, hprocess, hallocate⟩ := Option.bind_eq_some_iff.mp hallocate
  obtain ⟨⟨freed, found⟩, hget, hallocate⟩ := Option.bind_eq_some_iff.mp hallocate
  obtain ⟨hfreed, hstart⟩ := getFreeBuffer_announces (processStatusMessages_announces h hprocess) hget
  cases found with
  | none =>
    cases hallocate
    exact ⟨hfreed, fun b hb => by cases hb⟩
  | some bufferId =>
    obtain ⟨⟨owning, added⟩, hown, hallocate⟩ := Option.bind_eq_some_iff.mp hallocate
    cases hallocate
    obtain ⟨hclean, hsame⟩ := cleanUp_announces false (handleOwnBuffer_announces hfreed hown)
    refine ⟨hclean, fun b hb => ?_⟩
    rw [hsame, handleOwnBuffer_mStartSeq hown]
    exact hstart b hb

/-- The ids do not wrap with the call. -/
def Unwrapped (pool : BufferPool) : Call → Prop
  | .allocateNew _ _ _ => pool.mSeq + 1 < SYNC_BUFFERID
  | _ => True

instance decidableUnwrapped : ∀ pool call, Decidable (Unwrapped pool call)
  | pool, .allocateNew _ _ _ => inferInstanceAs (Decidable (pool.mSeq + 1 < SYNC_BUFFERID))
  | _, .connect _ _ _ => isTrue trivial
  | _, .post _ _ => isTrue trivial
  | _, .close _ _ => isTrue trivial
  | _, .allocate _ _ _ => isTrue trivial
  | _, .fetch _ _ _ _ => isTrue trivial
  | _, .cleanUp _ _ => isTrue trivial
  | _, .flush _ => isTrue trivial
  | _, .handleInvalidateAck _ => isTrue trivial

theorem addNewBuffer_announces (allocSize : Nat) (params : List (BitVec 8)) (h : Announces pool)
    (hwrap : pool.mSeq + 1 < SYNC_BUFFERID) : Announces (pool.addNewBuffer allocSize params).1 := by
  have hseq : (if (pool.mSeq + 1) % 2 ^ 32 = SYNC_BUFFERID then 0 else (pool.mSeq + 1) % 2 ^ 32) =
      pool.mSeq + 1 := by
    rw [Nat.mod_eq_of_lt (hwrap.trans (by decide)), if_neg (Nat.ne_of_lt hwrap)]
  rw [addNewBuffer]
  dsimp only
  rw [hseq]
  split
  · exact h.allocated rfl
  · refine { h with start_le := Nat.le_succ_of_le h.start_le, lt_seq := fun b buffer hfind => ?_ }
    exact Nat.lt_succ_of_lt (h.lt_seq b buffer hfind)

theorem allocateNew_announces {allocSize : Option Nat} {status : ResultStatus}
    {result : Option BufferId} (h : Announces pool) (hwrap : pool.mSeq + 1 < SYNC_BUFFERID)
    (hallocate : pool.allocateNew connectionId params allocSize = some (pool', status, result)) :
    Announces pool' := by
  cases allocSize with
  | none =>
    cases hallocate
    exact (cleanUp_announces _ h).1
  | some allocSize =>
    have hadded := addNewBuffer_announces allocSize params h hwrap
    rw [allocateNew] at hallocate
    dsimp only at hallocate
    generalize pool.addNewBuffer allocSize params = res at hallocate hadded
    obtain ⟨added, found⟩ := res
    cases found with
    | none =>
      cases hallocate
      exact (cleanUp_announces _ hadded).1
    | some bufferId =>
      obtain ⟨⟨owning, isAdded⟩, hown, hallocate⟩ := Option.bind_eq_some_iff.mp hallocate
      cases hallocate
      exact (cleanUp_announces _ (handleOwnBuffer_announces hadded hown)).1

/-! ### Runs -/

theorem step_announces {call : Call} (haccounts : Accounts pool) (h : Announces pool)
    (hsound : SoundCall pool call) (hwrap : Unwrapped pool call)
    (hstep : pool.step compatible call = some pool') : Announces pool' := by
  cases call with
  | connect id observer now =>
    obtain ⟨⟨_, status⟩, hconnect, rfl⟩ := Option.map_eq_some_iff.mp hstep
    obtain ⟨processed, hprocess, hconnect⟩ := Option.bind_eq_some_iff.mp hconnect
    cases hconnect
    have hprocessed := processStatusMessages_announces (openConnection_announces id observer h) hprocess
    exact (cleanUp_announces _ hprocessed).1
  | post connectionId message =>
    cases hstep
    exact h
  | close connectionId now =>
    obtain ⟨processed, hprocess, hclose⟩ := Option.bind_eq_some_iff.mp hstep
    obtain ⟨closed, hhandle, hclose⟩ := Option.bind_eq_some_iff.mp hclose
    cases hclose
    have hclosed := handleClose_announces (processStatusMessages_announces h hprocess) hhandle
    exact (cleanUp_announces _ (by exact hclosed)).1
  | allocate connectionId params now =>
    obtain ⟨⟨_, result⟩, hallocate, rfl⟩ := Option.map_eq_some_iff.mp hstep
    exact (allocate_announces h hallocate).1
  | allocateNew connectionId params allocSize =>
    obtain ⟨⟨_, _, result⟩, hallocate, rfl⟩ := Option.map_eq_some_iff.mp hstep
    exact allocateNew_announces h hwrap hallocate
  | fetch connectionId transactionId bufferId now =>
    obtain ⟨⟨_, status⟩, hfetch, rfl⟩ := Option.map_eq_some_iff.mp hstep
    obtain ⟨processed, hprocess, hfetch⟩ := Option.bind_eq_some_iff.mp hfetch
    have hprocessed := processStatusMessages_announces h hprocess
    split at hfetch
    · cases hfetch
      exact (cleanUp_announces _ hprocessed).1
    · split at hfetch
      · dsimp only at hfetch
        split at hfetch <;> cases hfetch
        · exact hprocessed
        · exact (cleanUp_announces _ (by exact hprocessed)).1
      · cases hfetch
        exact (cleanUp_announces _ hprocessed).1
  | cleanUp clearCache now =>
    obtain ⟨processed, hprocess, rfl⟩ := Option.map_eq_some_iff.mp hstep
    exact (cleanUp_announces _ (processStatusMessages_announces h hprocess)).1
  | flush now =>
    obtain ⟨processed, hprocess, hflush⟩ := Option.bind_eq_some_iff.mp hstep
    cases hflush
    obtain ⟨_, hprocess', hprocessed⟩ := processStatusMessages_accounts haccounts hsound
    rw [hprocess] at hprocess'
    cases hprocess'
    exact flushBuffers_announces hprocessed (processStatusMessages_announces h hprocess)
  | handleInvalidateAck now =>
    obtain ⟨processed, hprocess, hack⟩ := Option.bind_eq_some_iff.mp hstep
    cases hack
    obtain ⟨hpendings, hchannel⟩ := onHandleAck_pendings processed.mInvalidation
    have hprocessed := processStatusMessages_announces h hprocess
    show Announced _ _ _ _ processed.mInvalidation.onHandleAck.1.mPendings
      processed.mInvalidation.onHandleAck.1.channel
    rw [hpendings, hchannel]
    exact hprocessed

/-- In every run whose messages are sound, as long as the ids have not wrapped, each id that has been
flushed is in one range, of those that have been announced and have no buffer left or of those that
wait for the buffers they have left. What is handed out has not been flushed. -/
theorem announced_of_run
    (h : Machine.Run (machine compatible) (fun pool call => SoundCall pool call ∧ Unwrapped pool call)
      pool) :
    Announces pool ∧ ∀ connectionId params now pool' b,
      pool.allocate compatible connectionId params now = some (pool', some b) →
        pool'.mStartSeq ≤ b := by
  have hboth : Accounts pool ∧ Announces pool := by
    refine h.invariant (I := fun pool => Accounts pool ∧ Announces pool) ?_ ?_
    · refine ⟨(accounts_of_run (Machine.Run.init (M := machine compatible))).1, Nat.le_refl _, ?_, ?_, ?_, ?_, ?_,
        ?_, ?_⟩
      all_goals simp [machine, ranges, KeyedVector.find?_empty]
    · rintro pool call pool' ⟨haccounts, hannounces⟩ ⟨hsound, hwrap⟩ hstep
      obtain ⟨next, hnext, haccounts'⟩ := step_accounts haccounts hsound
      rw [show pool.step compatible call = some pool' from hstep] at hnext
      cases hnext
      exact ⟨haccounts', step_announces haccounts hannounces hsound hwrap hstep⟩
  exact ⟨hboth.2, fun connectionId params now pool' b hallocate =>
    (allocate_announces hboth.2 hallocate).2 b rfl⟩

/-- The buffer is in use when it is flushed, and the range is announced when it is given back. -/
theorem announced_of_run_flushing :
    ∃ pool, (machine fun _ _ => true).Run
        (fun pool call => SoundCall pool call ∧ Unwrapped pool call) pool ∧
      pool.mInvalidation.channel = [⟨2, 0, 1⟩] ∧ Announces pool := by
  have h := Machine.Run.of_exec (machine fun _ _ => true)
    (fun pool call => SoundCall pool call ∧ Unwrapped pool call)
    [.connect 1 true 0, .allocateNew 1 [] (some 8), .flush 0,
      .post 1 { bufferId := 0, newStatus := .NOT_USED, connectionId := 1 }, .cleanUp false 0]
    (by decide +kernel)
  exact ⟨_, h, by decide +kernel, (announced_of_run h).1⟩

end MediaFramework.Bufferpool
