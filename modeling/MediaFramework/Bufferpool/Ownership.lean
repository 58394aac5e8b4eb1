import MediaFramework.Bufferpool.BufferPool
import Mathlib.Data.Finset.Card

/-!
# Who owns a buffer

Whatever the clients post, a buffer is counted as often as it has owners, and it is there as long as
it has one.
-/

namespace MediaFramework.Bufferpool

open BufferPool

variable {using' : Finset (ConnectionId × BufferId)} {pool pool' : BufferPool}
variable {mBuffers : KeyedVector BufferId InternalBuffer} {buffer : InternalBuffer}
variable {connectionId c : ConnectionId} {bufferId b : BufferId}

/-- How many connections own a buffer. -/
def owners (using' : Finset (ConnectionId × BufferId)) (bufferId : BufferId) : Nat :=
  (using'.filter fun e => e.2 = bufferId).card

theorem owners_insert (h : (connectionId, bufferId) ∉ using') :
    owners (insert (connectionId, bufferId) using') b =
      if b = bufferId then owners using' b + 1 else owners using' b := by
  rw [owners, owners, Finset.filter_insert]
  split
  · next heq =>
    rw [if_pos (show b = bufferId from heq.symm), Finset.card_insert_of_notMem]
    exact fun hmem => h (Finset.mem_filter.mp hmem).1
  · next hne => rw [if_neg (show ¬b = bufferId from fun heq => hne heq.symm)]

theorem owners_erase (h : (connectionId, bufferId) ∈ using') :
    owners (using'.erase (connectionId, bufferId)) b + (if b = bufferId then 1 else 0) =
      owners using' b := by
  rw [owners, owners, Finset.filter_erase]
  split
  · next heq =>
    have hmem : (connectionId, bufferId) ∈ using'.filter fun e => e.2 = b :=
      Finset.mem_filter.mpr ⟨h, heq.symm⟩
    exact Finset.card_erase_add_one hmem
  · next hne =>
    rw [Finset.erase_eq_of_notMem fun hmem => hne (Finset.mem_filter.mp hmem).2.symm]
    rfl

/-- Each buffer has its count in a field, and is there while the count is not zero. -/
structure Tallied (field : InternalBuffer → Int) (tally : BufferId → Nat)
    (mBuffers : KeyedVector BufferId InternalBuffer) : Prop where
  present : ∀ b, tally b ≠ 0 → ∃ buffer, mBuffers.find? b = some buffer
  count : ∀ b buffer, mBuffers.find? b = some buffer → field buffer = tally b

section

variable {field : InternalBuffer → Int} {tally tally' : BufferId → Nat}

/-- One buffer changes, and its count. -/
theorem Tallied.set (h : Tallied field tally mBuffers) (hothers : ∀ b ≠ bufferId, tally' b = tally b)
    (hcount : field buffer = tally' bufferId) : Tallied field tally' (mBuffers.set bufferId buffer) := by
  constructor
  · intro b hb
    rw [mBuffers.find?_set]
    split
    · exact ⟨buffer, rfl⟩
    · next hne =>
      rw [hothers b hne] at hb
      exact h.present b hb
  · intro b buffer' hfind
    rw [mBuffers.find?_set] at hfind
    split at hfind
    · next heq =>
      cases hfind
      rw [heq, hcount]
    · next hne =>
      rw [hothers b hne]
      exact h.count b buffer' hfind

/-- A buffer with no count goes away. -/
theorem Tallied.remove (h : Tallied field tally mBuffers) (hnone : tally bufferId = 0) :
    Tallied field tally (mBuffers.remove bufferId) := by
  constructor
  · intro b hb
    rw [mBuffers.find?_remove, if_neg fun heq => hb (by rw [heq, hnone])]
    exact h.present b hb
  · intro b buffer hfind
    rw [mBuffers.find?_remove] at hfind
    split at hfind
    · cases hfind
    · exact h.count b buffer hfind

/-- A change that leaves the count alone. -/
theorem Tallied.mapEntries {f : BufferId → InternalBuffer → InternalBuffer}
    (hf : ∀ b buffer, field (f b buffer) = field buffer) (h : Tallied field tally mBuffers) :
    Tallied field tally (mBuffers.mapEntries f) := by
  constructor
  · intro b hb
    obtain ⟨buffer, hfind⟩ := h.present b hb
    exact ⟨_, (mBuffers.find?_mapEntries f b).trans (congrArg _ hfind)⟩
  · intro b buffer hfind
    rw [mBuffers.find?_mapEntries] at hfind
    obtain ⟨buffer', hfind', rfl⟩ := Option.map_eq_some_iff.mp hfind
    rw [hf]
    exact h.count b buffer' hfind'

/-- A buffer that is not there has no count. -/
theorem Tallied.absent (h : Tallied field tally mBuffers) (hnone : mBuffers.find? bufferId = none) :
    tally bufferId = 0 := by
  by_contra hne
  obtain ⟨buffer, hfind⟩ := h.present bufferId hne
  rw [hnone] at hfind
  cases hfind

end

/-- Each buffer is counted as often as it has owners, and is there while it has one. -/
abbrev Counted (using' : Finset (ConnectionId × BufferId))
    (mBuffers : KeyedVector BufferId InternalBuffer) : Prop :=
  Tallied InternalBuffer.mOwnerCount (owners using') mBuffers

/-- What the pool keeps when `using'` says who owns what. -/
structure OwnedBy (using' : Finset (ConnectionId × BufferId)) (pool : BufferPool) : Prop where
  inverse : ∀ c b, (c, b) ∈ using' ↔ (b, c) ∈ pool.mUsingConnections
  counted : Counted using' pool.mBuffers

abbrev Owned (pool : BufferPool) : Prop := OwnedBy pool.mUsingBuffers pool

/-! ### Steps -/

/-- What retiring a buffer does. -/
theorem retire_cases (pool : BufferPool) (bufferId : BufferId) (buffer : InternalBuffer) :
    ∃ mStats mFreeBuffers mBuffers mInvalidation, pool.retire bufferId buffer =
        { pool with
          mStats := mStats
          mFreeBuffers := mFreeBuffers
          mBuffers := mBuffers
          mInvalidation := mInvalidation } ∧
      (mBuffers = pool.mBuffers ∨
        buffer.mOwnerCount = 0 ∧ mBuffers = pool.mBuffers.remove bufferId) := by
  rw [retire]
  split
  · next hidle =>
    split
    · exact ⟨_, _, _, _, rfl, .inl rfl⟩
    · exact ⟨_, _, _, _, rfl, .inr ⟨hidle.1, rfl⟩⟩
  · exact ⟨_, _, _, _, rfl, .inl rfl⟩

/-- What changes where a count of a buffer does. -/
def Settles (using' : Finset (ConnectionId × BufferId)) (pool pool' : BufferPool) : Prop :=
  ∃ mStats mFreeBuffers mBuffers mInvalidation, pool' =
      { pool with
        mStats := mStats
        mFreeBuffers := mFreeBuffers
        mBuffers := mBuffers
        mInvalidation := mInvalidation } ∧ Counted using' mBuffers

theorem settles_retire {using₂ : Finset (ConnectionId × BufferId)} (h : Counted using' pool.mBuffers)
    (hothers : ∀ b ≠ bufferId, owners using₂ b = owners using' b)
    (hcount : buffer.mOwnerCount = owners using₂ bufferId) :
    Settles using₂ pool
      ({ pool with mBuffers := pool.mBuffers.set bufferId buffer }.retire bufferId buffer) := by
  have hset := h.set hothers hcount
  obtain ⟨mStats, mFreeBuffers, mBuffers, mInvalidation, heq, hbuffers⟩ := retire_cases
    { pool with mBuffers := pool.mBuffers.set bufferId buffer } bufferId buffer
  refine ⟨mStats, mFreeBuffers, mBuffers, mInvalidation, heq, ?_⟩
  obtain rfl | ⟨hidle, rfl⟩ := hbuffers
  · exact hset
  · exact hset.remove (by omega)

theorem dropOwner_settles (pool : BufferPool) (h : Counted using' pool.mBuffers)
    (hmem : (connectionId, bufferId) ∈ using') (hdrop : pool.dropOwner bufferId = some pool') :
    Settles (using'.erase (connectionId, bufferId)) pool pool' := by
  obtain ⟨buffer, hfind, hdrop⟩ := Option.bind_eq_some_iff.mp hdrop
  cases hdrop
  have herase := owners_erase (b := bufferId) hmem
  refine settles_retire h (fun b hb => ?_) ?_
  · have hother := owners_erase (b := b) hmem
    rwa [if_neg hb] at hother
  · rw [if_pos rfl] at herase
    have hcount := h.count bufferId buffer hfind
    show buffer.mOwnerCount - 1 = _
    omega

theorem dropTransaction_settles (h : Counted using' pool.mBuffers)
    (hdrop : pool.dropTransaction bufferId = some pool') : Settles using' pool pool' := by
  obtain ⟨buffer, hfind, hdrop⟩ := Option.bind_eq_some_iff.mp hdrop
  cases hdrop
  exact settles_retire h (fun _ _ => rfl) (h.count bufferId buffer hfind)

theorem handleOwnBuffer_owned {added : Bool} (h : Owned pool)
    (hown : pool.handleOwnBuffer connectionId bufferId = some (pool', added)) : Owned pool' := by
  rw [handleOwnBuffer] at hown
  split at hown
  · next hmem =>
    cases hown
    refine ⟨fun c b => ?_, h.counted⟩
    rw [Finset.insert_eq_of_mem ((h.inverse connectionId bufferId).mp hmem)]
    exact h.inverse c b
  · next hmem =>
    obtain ⟨buffer, hfind, hown⟩ := Option.bind_eq_some_iff.mp hown
    cases hown
    have hcount := h.counted.count bufferId buffer hfind
    refine ⟨fun c b => ?_, h.counted.set (fun b hb => ?_) ?_⟩
    · rw [Finset.mem_insert, Finset.mem_insert, h.inverse c b, Prod.mk.injEq, Prod.mk.injEq, and_comm]
    · rw [owners_insert hmem, if_neg hb]
    · rw [owners_insert hmem, if_pos rfl]
      show buffer.mOwnerCount + 1 = _
      omega

theorem handleReleaseBuffer_owned {deleted : Bool} (h : Owned pool)
    (hrelease : pool.handleReleaseBuffer connectionId bufferId = some (pool', deleted)) :
    Owned pool' := by
  rw [handleReleaseBuffer] at hrelease
  split at hrelease
  · next hmem =>
    obtain ⟨released, hdrop, hrelease⟩ := Option.bind_eq_some_iff.mp hrelease
    cases hrelease
    obtain ⟨_, _, _, _, rfl, hcounted⟩ := dropOwner_settles
      { pool with mUsingBuffers := pool.mUsingBuffers.erase (connectionId, bufferId) }
      h.counted hmem hdrop
    refine ⟨fun c b => ?_, hcounted⟩
    rw [Finset.mem_erase, Finset.mem_erase, h.inverse c b, ne_eq, Prod.mk.injEq, ne_eq,
      Prod.mk.injEq, and_comm (a := c = connectionId)]
  · next hmem =>
    cases hrelease
    have hnone : (bufferId, connectionId) ∉ pool.mUsingConnections :=
      fun h' => hmem ((h.inverse connectionId bufferId).mpr h')
    refine ⟨fun c b => ?_, h.counted⟩
    rw [Finset.erase_eq_of_notMem hnone]
    exact h.inverse c b

theorem startTransaction_owned {message : BufferStatusMessage} (h : Owned pool)
    (hstart : pool.startTransaction message connectionId = some pool') : Owned pool' := by
  obtain ⟨buffer, hfind, hstart⟩ := Option.bind_eq_some_iff.mp hstart
  cases hstart
  exact ⟨h.inverse, h.counted.set (fun _ _ => rfl) (h.counted.count _ buffer hfind)⟩

theorem handleTransferTo_owned {message : BufferStatusMessage} {ret : Bool} (h : Owned pool)
    (hto : pool.handleTransferTo message = some (pool', ret)) : Owned pool' := by
  rw [handleTransferTo] at hto
  split at hto
  · cases hto
    exact ⟨h.inverse, h.counted⟩
  · split at hto
    · cases hto
      exact h
    · split at hto
      · cases hto
        exact ⟨h.inverse, h.counted⟩
      · split at hto
        · cases hto
          exact h
        · obtain ⟨started, hstart, hto⟩ := Option.bind_eq_some_iff.mp hto
          cases hto
          exact startTransaction_owned h hstart

theorem handleTransferFrom_owned {message : BufferStatusMessage} {ret : Bool} (h : Owned pool)
    (hfrom : pool.handleTransferFrom message = some (pool', ret)) : Owned pool' := by
  rw [handleTransferFrom] at hfrom
  split at hfrom
  · obtain ⟨started, hstart, hfrom⟩ := Option.bind_eq_some_iff.mp hfrom
    cases hfrom
    exact startTransaction_owned h hstart
  · split at hfrom
    · cases hfrom
      exact ⟨h.inverse, h.counted⟩
    · cases hfrom
      exact h

theorem complete_owned (transactionId : TransactionId) (transaction : TransactionStatus)
    (h : Owned pool) : Owned (pool.complete transactionId transaction) := by
  rw [complete]
  split
  · exact h
  · exact ⟨h.inverse, h.counted⟩

theorem ownTransferred_owned {message : BufferStatusMessage} (h : Owned pool)
    (hown : pool.ownTransferred message = some pool') : Owned pool' := by
  rw [ownTransferred] at hown
  split at hown
  · obtain ⟨⟨owning, added⟩, hadded, rfl⟩ := Option.map_eq_some_iff.mp hown
    exact handleOwnBuffer_owned h hadded
  · cases hown
    exact h

theorem handleTransferResult_owned {message : BufferStatusMessage} {ret : Bool} (h : Owned pool)
    (hresult : pool.handleTransferResult message = some (pool', ret)) : Owned pool' := by
  rw [handleTransferResult] at hresult
  split at hresult
  · cases hresult
    exact h
  · split at hresult
    · obtain ⟨owning, hown, hresult⟩ := Option.bind_eq_some_iff.mp hresult
      obtain ⟨dropped, hdrop, hresult⟩ := Option.bind_eq_some_iff.mp hresult
      cases hresult
      have howning : Owned owning := by
        refine ownTransferred_owned (complete_owned _ _ ?_) hown
        exact ⟨h.inverse, h.counted⟩
      obtain ⟨_, _, _, _, rfl, hcounted⟩ := dropTransaction_settles howning.counted hdrop
      exact ⟨howning.inverse, hcounted⟩
    · cases hresult
      exact h

theorem handleMessage_owned {message : BufferStatusMessage} {ret : Bool} (h : Owned pool)
    (hmessage : pool.handleMessage message = some (pool', ret)) : Owned pool' := by
  rw [handleMessage] at hmessage
  split at hmessage
  · exact handleReleaseBuffer_owned h hmessage
  · exact handleTransferTo_owned h hmessage
  · exact handleTransferFrom_owned h hmessage
  · exact handleTransferResult_owned h hmessage
  · exact handleTransferResult_owned h hmessage
  all_goals
    cases hmessage
    exact ⟨h.inverse, h.counted⟩

theorem handleMessages_owned {messages : List BufferStatusMessage} (h : Owned pool)
    (hmessages : pool.handleMessages messages = some pool') : Owned pool' := by
  induction messages generalizing pool with
  | nil =>
    cases hmessages
    exact h
  | cons message messages ih =>
    obtain ⟨⟨next, _⟩, hmessage, hmessages⟩ := Option.bind_eq_some_iff.mp hmessages
    exact ih (handleMessage_owned h hmessage) hmessages

theorem processStatusMessages_owned {now : Int} (h : Owned pool)
    (hprocess : pool.processStatusMessages now = some pool') : Owned pool' := by
  rw [processStatusMessages] at hprocess
  refine handleMessages_owned ?_ hprocess
  exact ⟨h.inverse, h.counted⟩

theorem closeBuffer_owned (h : OwnedBy using' pool)
    (hclose : closeBuffer connectionId pool bufferId = some pool') :
    OwnedBy (using'.erase (connectionId, bufferId)) pool' ∧
      pool'.mUsingBuffers = pool.mUsingBuffers := by
  rw [closeBuffer] at hclose
  split at hclose
  · next hmem =>
    obtain ⟨_, _, _, _, rfl, hcounted⟩ := dropOwner_settles
      { pool with mUsingConnections := pool.mUsingConnections.erase (bufferId, connectionId) }
      h.counted ((h.inverse _ _).mpr hmem) hclose
    refine ⟨⟨fun c b => ?_, hcounted⟩, rfl⟩
    rw [Finset.mem_erase, Finset.mem_erase, h.inverse c b, ne_eq, Prod.mk.injEq, ne_eq,
      Prod.mk.injEq, and_comm (a := c = connectionId)]
  · next hmem =>
    cases hclose
    rw [Finset.erase_eq_of_notMem fun h' => hmem ((h.inverse _ _).mp h')]
    exact ⟨h, rfl⟩

theorem closeBuffers_owned {bufferIds : List BufferId} (h : OwnedBy using' pool)
    (hclose : bufferIds.foldlM (closeBuffer connectionId) pool = some pool') :
    OwnedBy (using'.filter fun e => ¬(e.1 = connectionId ∧ e.2 ∈ bufferIds)) pool' ∧
      pool'.mUsingBuffers = pool.mUsingBuffers := by
  induction bufferIds generalizing using' pool with
  | nil =>
    cases hclose
    have hall : using'.filter (fun e => ¬(e.1 = connectionId ∧ e.2 ∈ ([] : List BufferId))) = using' :=
      Finset.filter_true_of_mem fun e _ h' => List.not_mem_nil h'.2
    rw [hall]
    exact ⟨h, rfl⟩
  | cons bufferId bufferIds ih =>
    rw [List.foldlM_cons] at hclose
    obtain ⟨next, hfirst, hclose⟩ := Option.bind_eq_some_iff.mp hclose
    obtain ⟨hnext, hsame⟩ := closeBuffer_owned h hfirst
    obtain ⟨hall, hsame'⟩ := ih hnext hclose
    refine ⟨?_, hsame'.trans hsame⟩
    have hleft : (using'.erase (connectionId, bufferId)).filter
        (fun e => ¬(e.1 = connectionId ∧ e.2 ∈ bufferIds)) =
          using'.filter fun e => ¬(e.1 = connectionId ∧ e.2 ∈ bufferId :: bufferIds) := by
      ext ⟨c, b⟩
      rw [Finset.mem_filter, Finset.mem_filter, Finset.mem_erase, List.mem_cons, ne_eq, Prod.mk.injEq]
      tauto
    rwa [← hleft]

theorem mem_valuesOf {β : Type} [LinearOrder β] {mapOfSet : Finset (ConnectionId × β)} {x : β} :
    x ∈ valuesOf mapOfSet connectionId ↔ (connectionId, x) ∈ mapOfSet := by
  rw [valuesOf, Finset.mem_sort, Finset.mem_image]
  constructor
  · rintro ⟨⟨c, x'⟩, hmem, hx⟩
    obtain ⟨hmem, hc⟩ := Finset.mem_filter.mp hmem
    rwa [← show c = connectionId from hc, ← show x' = x from hx]
  · intro hmem
    exact ⟨(connectionId, x), Finset.mem_filter.mpr ⟨hmem, rfl⟩, rfl⟩

theorem owned_of_closed (using' : Finset (ConnectionId × BufferId)) (connectionId : ConnectionId) :
    using'.filter (fun e => ¬(e.1 = connectionId ∧ e.2 ∈ valuesOf using' connectionId)) =
      using'.filter fun e => e.1 ≠ connectionId := by
  refine Finset.filter_congr fun e he => ?_
  rw [mem_valuesOf]
  constructor
  · rintro hnot rfl
    exact hnot ⟨rfl, he⟩
  · exact fun hne hmem => hne hmem.1

theorem closeTransaction_owned {transactionId : TransactionId} (h : Owned pool)
    (hclose : closeTransaction pool transactionId = some pool') : Owned pool' := by
  rw [closeTransaction] at hclose
  split at hclose
  · cases hclose
    exact h
  · next transaction hfind =>
    obtain ⟨dropped, hdrop, hclose⟩ := Option.bind_eq_some_iff.mp hclose
    cases hclose
    have hcomplete := complete_owned transactionId transaction h
    obtain ⟨_, _, _, _, rfl, hcounted⟩ := dropTransaction_settles hcomplete.counted hdrop
    exact ⟨hcomplete.inverse, hcounted⟩

theorem closeTransactions_owned {transactionIds : List TransactionId} (h : Owned pool)
    (hclose : transactionIds.foldlM closeTransaction pool = some pool') : Owned pool' := by
  induction transactionIds generalizing pool with
  | nil =>
    cases hclose
    exact h
  | cons transactionId transactionIds ih =>
    rw [List.foldlM_cons] at hclose
    obtain ⟨next, hfirst, hclose⟩ := Option.bind_eq_some_iff.mp hclose
    exact ih (closeTransaction_owned h hfirst) hclose

theorem handleClose_owned (h : Owned pool) (hclose : pool.handleClose connectionId = some pool') :
    Owned pool' := by
  obtain ⟨closed, hbuffers, hclose⟩ := Option.bind_eq_some_iff.mp hclose
  obtain ⟨ended, htransactions, hclose⟩ := Option.bind_eq_some_iff.mp hclose
  cases hclose
  obtain ⟨hclosed, hsame⟩ := closeBuffers_owned h hbuffers
  rw [owned_of_closed, ← hsame] at hclosed
  have hended : Owned ended := by
    refine closeTransactions_owned ?_ htransactions
    exact ⟨hclosed.inverse, hclosed.counted⟩
  exact ⟨hended.inverse, hended.counted⟩

theorem evict_owned (h : Owned pool) : Owned (pool.evict bufferId) := by
  rw [evict]
  split
  · exact h
  · next buffer hfind =>
    split
    · next hidle =>
      have hcount := h.counted.count bufferId buffer hfind
      have hnone := hidle.1
      exact ⟨h.inverse, h.counted.remove (by omega)⟩
    · exact h

theorem evictFree_owned {clearCache : Bool} {bufferIds : List BufferId} (h : Owned pool) :
    Owned (evictFree clearCache pool bufferIds) := by
  induction bufferIds generalizing pool with
  | nil => exact h
  | cons bufferId bufferIds ih =>
    rw [evictFree]
    split
    · exact h
    · exact ih (evict_owned h)

theorem cleanUp_owned {clearCache : Bool} (h : Owned pool) : Owned (pool.cleanUp clearCache) := by
  rw [cleanUp]
  split
  · apply evictFree_owned
    exact ⟨h.inverse, h.counted⟩
  · exact h

theorem invalidate_owned {needsAck : Bool} {fromId toId : BufferId} (h : Owned pool) :
    Owned (pool.invalidate needsAck fromId toId) := by
  have hevicted : ∀ (bufferIds : List BufferId) (pool : BufferPool), Owned pool →
      Owned (bufferIds.foldl evict pool) := by
    intro bufferIds
    induction bufferIds with
    | nil => exact fun _ h => h
    | cons bufferId bufferIds ih => exact fun pool h => ih _ (evict_owned h)
  have hpool := hevicted ((pool.mFreeBuffers.sort (· ≤ ·)).filter (isBufferInRange fromId toId)) pool h
  refine ⟨hpool.inverse, ?_⟩
  refine Tallied.mapEntries (fun b buffer => ?_) hpool.counted
  rw [invalidateIn]
  split <;> rfl

theorem flushBuffers_owned (h : Owned pool) : Owned pool.flushBuffers := by
  rw [flushBuffers]
  split
  · apply invalidate_owned
    exact ⟨h.inverse, h.counted⟩
  · exact ⟨h.inverse, h.counted⟩

theorem openConnection_owned {id : ConnectionId} {observer : Bool} (h : Owned pool) :
    Owned (pool.openConnection id observer).1 := by
  rw [openConnection]
  split
  · exact h
  · exact ⟨h.inverse, h.counted⟩

theorem addNewBuffer_owned (allocSize : Nat) (params : List (BitVec 8)) (h : Owned pool) :
    Owned (pool.addNewBuffer allocSize params).1 := by
  rw [addNewBuffer]
  dsimp only
  split
  · next hnew =>
    have hnone := h.counted.absent hnew
    refine ⟨h.inverse, h.counted.set (fun _ _ => rfl) ?_⟩
    rw [hnone]
    rfl
  · exact ⟨h.inverse, h.counted⟩

theorem getFreeBuffer_owned {compatible : List (BitVec 8) → List (BitVec 8) → Bool}
    {params : List (BitVec 8)} {found : Option BufferId} (h : Owned pool)
    (hget : pool.getFreeBuffer compatible params = some (pool', found)) : Owned pool' := by
  obtain ⟨first, _, hget⟩ := Option.bind_eq_some_iff.mp hget
  split at hget <;> cases hget
  · exact h
  · exact ⟨h.inverse, h.counted⟩

/-! ### Runs -/

theorem step_owned {compatible : List (BitVec 8) → List (BitVec 8) → Bool} {call : Call}
    (h : Owned pool) (hstep : pool.step compatible call = some pool') : Owned pool' := by
  cases call with
  | connect id observer now =>
    obtain ⟨⟨_, status⟩, hconnect, rfl⟩ := Option.map_eq_some_iff.mp hstep
    obtain ⟨processed, hprocess, hconnect⟩ := Option.bind_eq_some_iff.mp hconnect
    cases hconnect
    exact cleanUp_owned (processStatusMessages_owned (openConnection_owned h) hprocess)
  | post connectionId message =>
    cases hstep
    exact ⟨h.inverse, h.counted⟩
  | close connectionId now =>
    obtain ⟨processed, hprocess, hclose⟩ := Option.bind_eq_some_iff.mp hstep
    obtain ⟨closed, hhandle, hclose⟩ := Option.bind_eq_some_iff.mp hclose
    cases hclose
    have hclosed := handleClose_owned (processStatusMessages_owned h hprocess) hhandle
    apply cleanUp_owned
    exact ⟨hclosed.inverse, hclosed.counted⟩
  | allocate connectionId params now =>
    obtain ⟨⟨_, result⟩, hallocate, rfl⟩ := Option.map_eq_some_iff.mp hstep
    obtain ⟨processed, hprocess, hallocate⟩ := Option.bind_eq_some_iff.mp hallocate
    obtain ⟨⟨freed, found⟩, hget, hallocate⟩ := Option.bind_eq_some_iff.mp hallocate
    have hfreed := getFreeBuffer_owned (processStatusMessages_owned h hprocess) hget
    cases found with
    | none =>
      cases hallocate
      exact hfreed
    | some bufferId =>
      obtain ⟨⟨owning, added⟩, hown, hallocate⟩ := Option.bind_eq_some_iff.mp hallocate
      cases hallocate
      exact cleanUp_owned (handleOwnBuffer_owned hfreed hown)
  | allocateNew connectionId params allocSize =>
    obtain ⟨⟨_, result⟩, hallocate, rfl⟩ := Option.map_eq_some_iff.mp hstep
    cases allocSize with
    | none =>
      cases hallocate
      exact cleanUp_owned h
    | some allocSize =>
      have hadded := addNewBuffer_owned allocSize params h
      rw [allocateNew] at hallocate
      dsimp only at hallocate
      generalize pool.addNewBuffer allocSize params = res at hallocate hadded
      obtain ⟨added, found⟩ := res
      cases found with
      | none =>
        cases hallocate
        exact cleanUp_owned hadded
      | some bufferId =>
        obtain ⟨⟨owning, isAdded⟩, hown, hallocate⟩ := Option.bind_eq_some_iff.mp hallocate
        cases hallocate
        exact cleanUp_owned (handleOwnBuffer_owned hadded hown)
  | fetch connectionId transactionId bufferId now =>
    obtain ⟨⟨_, status⟩, hfetch, rfl⟩ := Option.map_eq_some_iff.mp hstep
    obtain ⟨processed, hprocess, hfetch⟩ := Option.bind_eq_some_iff.mp hfetch
    have hprocessed := processStatusMessages_owned h hprocess
    split at hfetch
    · cases hfetch
      exact cleanUp_owned hprocessed
    · split at hfetch
      · dsimp only at hfetch
        split at hfetch <;> cases hfetch
        · exact ⟨hprocessed.inverse, hprocessed.counted⟩
        · apply cleanUp_owned
          exact ⟨hprocessed.inverse, hprocessed.counted⟩
      · cases hfetch
        exact cleanUp_owned hprocessed
  | cleanUp clearCache now =>
    obtain ⟨processed, hprocess, rfl⟩ := Option.map_eq_some_iff.mp hstep
    exact cleanUp_owned (processStatusMessages_owned h hprocess)
  | flush now =>
    obtain ⟨processed, hprocess, hflush⟩ := Option.bind_eq_some_iff.mp hstep
    cases hflush
    have hprocessed := processStatusMessages_owned h hprocess
    exact flushBuffers_owned hprocessed
  | handleInvalidateAck now =>
    obtain ⟨processed, hprocess, hack⟩ := Option.bind_eq_some_iff.mp hstep
    cases hack
    have hprocessed := processStatusMessages_owned h hprocess
    exact ⟨hprocessed.inverse, hprocessed.counted⟩

/-- In every run, whatever the clients post, the two maps agree on who owns what, each buffer is
counted as often as it has owners, and no buffer goes away while it has one. -/
theorem owned_of_run {compatible : List (BitVec 8) → List (BitVec 8) → Bool}
    (h : Machine.Run (machine compatible) (fun _ _ => True) pool) : Owned pool := by
  refine h.invariant (I := Owned) ?_ fun pool call pool' hpool _ hstep => step_owned hpool hstep
  refine ⟨fun c b => ?_, fun b hb => absurd rfl hb, fun b buffer hfind => ?_⟩
  · exact iff_of_false (Finset.notMem_empty _) (Finset.notMem_empty _)
  · cases hfind

/-- A connection allocates a buffer and transfers it to another one. -/
def transferring : List Call :=
  let message : BufferStatusMessage :=
    { transactionId := 7, bufferId := 0, newStatus := .TRANSFER_TO, connectionId := 1,
      targetConnectionId := 2 }
  [.connect 1 true 0, .connect 2 true 0, .allocateNew 1 [] (some 8), .post 1 message,
    .post 2 { message with newStatus := .TRANSFER_FROM },
    .post 2 { message with newStatus := .TRANSFER_OK }, .cleanUp false 0]

theorem owned_of_run_transferring :
    ∃ pool, (machine fun _ _ => true).Run (fun _ _ => True) pool ∧
      pool.mUsingBuffers = {(1, 0), (2, 0)} ∧ Owned pool := by
  have h := Machine.Run.of_exec (machine fun _ _ => true) (fun _ _ => True) transferring
    (by decide +kernel)
  exact ⟨_, h, by decide +kernel, owned_of_run h⟩

end MediaFramework.Bufferpool
