import MediaFramework.Rtsp.AVCAssembler
import MediaFramework.Lib.Buffer

/-!
# The reads of the assembler

`AAVCAssembler` again, with `none` for a read outside a packet, an erasure past the end of the
queue and a failed `CHECK`. None of these happens.
-/

namespace MediaFramework.Rtsp.AAVCAssembler

/-- Where the loop over the fragments stops. The fragments it has gone past hold two bytes. -/
theorem scanFragments_spec {indicator nalType : BitVec 8} {queue : List ABuffer}
    {totalCount : Nat} {expectedSeqNo : BitVec 32} :
    (∀ count next,
      scanFragments indicator nalType queue totalCount expectedSeqNo = .complete count next →
      ∃ k b, count = totalCount + k + 1 ∧ queue[k]? = some b ∧ next = b.seqNo + 1 ∧
        ∀ b' ∈ queue.take (k + 1), 2 ≤ b'.data.length) ∧
    ∀ count next,
      scanFragments indicator nalType queue totalCount expectedSeqNo = .malformed count next →
      ∃ k b, count = totalCount + k ∧ queue[k]? = some b ∧ next = b.seqNo := by
  induction queue generalizing totalCount expectedSeqNo with
  | nil => exact ⟨fun _ _ h => (by cases h), fun _ _ h => by cases h⟩
  | cons b queue ih =>
    rw [scanFragments]
    split
    · exact ⟨fun _ _ h => (by cases h), fun _ _ h => by cases h⟩
    next hseq =>
    rw [ne_eq, not_not] at hseq
    split
    · refine ⟨fun _ _ h => (by cases h), ?_⟩
      rintro count next ⟨⟩
      exact ⟨0, b, rfl, rfl, hseq.symm⟩
    next hfragment =>
    have htwo : 2 ≤ b.data.length := Nat.le_of_not_lt fun h => hfragment (.inl h)
    split
    · refine ⟨?_, fun _ _ h => by cases h⟩
      rintro count next ⟨⟩
      refine ⟨0, b, rfl, rfl, by rw [hseq], fun b' hb' => ?_⟩
      obtain rfl : b' = b := by simpa using hb'
      exact htwo
    · constructor
      · intro count next h
        obtain ⟨k, b', hcount, hb', hnext, hall⟩ := ih.1 count next h
        refine ⟨k + 1, b', by omega, hb', hnext, fun c hc => ?_⟩
        rcases List.mem_cons.mp hc with rfl | hmem
        · exact htwo
        · exact hall c hmem
      · intro count next h
        obtain ⟨k, b', hcount, hb', hnext⟩ := ih.2 count next h
        exact ⟨k + 1, b', by omega, hb', hnext⟩

namespace Checked

/-- `count` calls of `erase` from the front. -/
def erase (queue : List ABuffer) (count : Nat) : Option (List ABuffer) :=
  if count ≤ queue.length then some (queue.drop count) else none

def addAggregated (a : AAVCAssembler) (buffer : ABuffer) (data : List (BitVec 8)) :
    Option (AAVCAssembler × Bool) :=
  if _h : data.length < 2 then some (a, true)
  else do
    let high ← data[0]?
    let low ← data[1]?
    let nalSize := high.toNat * 256 + low.toNat
    if data.length < nalSize + 2 then some (a, false)
    else
      let unit ← Buffer.load data 2 nalSize
      addAggregated (a.addSingleNALUnit { buffer with data := unit }) buffer
        (data.drop (2 + nalSize))
termination_by data.length
decreasing_by
  rw [List.length_drop]
  omega

def addSingleTimeAggregationPacket (a : AAVCAssembler) (buffer : ABuffer) :
    Option (AAVCAssembler × Bool) :=
  if buffer.data.length < 3 then some (a, false)
  else addAggregated a buffer (buffer.data.drop 1)

def scanFragments (indicator nalType : BitVec 8) :
    List ABuffer → Nat → BitVec 32 → Option Fragments
  | [], _, _ => some .incomplete
  | b :: queue, totalCount, expectedSeqNo =>
    if b.seqNo ≠ expectedSeqNo then some .wrongSequence
    else if b.data.length < 2 then some (.malformed totalCount expectedSeqNo)
    else do
      let first ← b.data[0]?
      let second ← b.data[1]?
      if first ≠ indicator ∨ second &&& 0x1f ≠ nalType ∨ second &&& 0x80 ≠ 0 then
        some (.malformed totalCount expectedSeqNo)
      else if second &&& 0x40 ≠ 0 then some (.complete (totalCount + 1) (expectedSeqNo + 1))
      else scanFragments indicator nalType queue (totalCount + 1) (expectedSeqNo + 1)

/-- The loop that joins the fragments. `size() - 2` must not wrap. -/
def pieces : List ABuffer → Option (List (BitVec 8))
  | [] => some []
  | b :: queue => do
    if b.data.length < 2 then none
    else
      let piece ← Buffer.load b.data 2 (b.data.length - 2)
      let others ← pieces queue
      some (piece ++ others)

def addFragmentedNALUnit (a : AAVCAssembler) (buffer : ABuffer) (rest : List ABuffer) :
    Option (AAVCAssembler × List ABuffer × AssemblyStatus) := do
  let indicator ← buffer.data[0]?
  if indicator &&& 0x1f ≠ 28 then none
  else
    let skipped := { a with mNextExpectedSeqNo := a.mNextExpectedSeqNo + 1 }
    let queue := buffer :: rest
    if buffer.data.length < 2 then some (skipped, rest, .MALFORMED_PACKET)
    else
      let fuHeader ← buffer.data[1]?
      if fuHeader &&& 0x80 = 0 then some (skipped, rest, .MALFORMED_PACKET)
      else
        let nalType := fuHeader &&& 0x1f
        let nri := (indicator >>> 5) &&& 3
        let fragments ←
          if fuHeader &&& 0x40 ≠ 0 then some (Fragments.complete 1 (buffer.seqNo + 1))
          else scanFragments indicator nalType rest 1 (buffer.seqNo + 1)
        match fragments with
        | .incomplete => some (a, queue, .NOT_ENOUGH_DATA)
        | .wrongSequence => some (a, queue, .WRONG_SEQUENCE_NUMBER)
        | .malformed totalCount expectedSeqNo =>
          let left ← erase queue (totalCount + 1)
          some ({ a with mNextExpectedSeqNo := expectedSeqNo + 1 }, left, .MALFORMED_PACKET)
        | .complete totalCount expectedSeqNo =>
          let joined ← pieces (queue.take totalCount)
          let left ← erase queue totalCount
          let unit := { buffer with data := ((nri <<< 5) ||| nalType) :: joined }
          some (({ a with mNextExpectedSeqNo := expectedSeqNo }).addSingleNALUnit unit, left, .OK)

def addBuffer (a : AAVCAssembler) (buffer : ABuffer) (rest : List ABuffer) :
    Option (AAVCAssembler × List ABuffer × AssemblyStatus) :=
  let advance (a : AAVCAssembler) := { a with mNextExpectedSeqNo := a.mNextExpectedSeqNo + 1 }
  if buffer.data.length < 1 then some (advance a, rest, .MALFORMED_PACKET)
  else do
    let first ← buffer.data[0]?
    if first &&& 0x80 ≠ 0 then some (advance a, rest, .MALFORMED_PACKET)
    else
      let nalType := (first &&& 0x1f).toNat
      if 1 ≤ nalType ∧ nalType ≤ 23 then some (advance (a.addSingleNALUnit buffer), rest, .OK)
      else if nalType = 28 then addFragmentedNALUnit a buffer rest
      else if nalType = 24 then
        let (a, success) ← addSingleTimeAggregationPacket a buffer
        some (advance a, rest, if success then .OK else .MALFORMED_PACKET)
      else if nalType = 0 then some (advance a, rest, .OK)
      else some (advance a, rest, .MALFORMED_PACKET)

def addNALUnit (a : AAVCAssembler) (queue : List ABuffer) :
    Option (AAVCAssembler × List ABuffer × AssemblyStatus) :=
  let queue :=
    if a.mNextExpectedSeqNoValid then
      queue.dropWhile fun b => b.seqNo.toNat < a.mNextExpectedSeqNo.toNat
    else queue
  match queue with
  | [] => some (a, [], .NOT_ENOUGH_DATA)
  | buffer :: rest =>
    if a.mNextExpectedSeqNoValid then
      if buffer.seqNo ≠ a.mNextExpectedSeqNo then
        some (a, buffer :: rest, .WRONG_SEQUENCE_NUMBER)
      else addBuffer a buffer rest
    else
      addBuffer { a with
        mNextExpectedSeqNoValid := true
        mNextExpectedSeqNo := buffer.seqNo } buffer rest

def assembleMore (a : AAVCAssembler) (queue : List ABuffer) :
    Option (AAVCAssembler × List ABuffer × AssemblyStatus) := do
  let (a, queue, status) ← addNALUnit a queue
  if status = .MALFORMED_PACKET then some ({ a with mAccessUnitDamaged := true }, queue, status)
  else some (a, queue, status)

def packetLost (a : AAVCAssembler) : Option AAVCAssembler :=
  if a.mNextExpectedSeqNoValid then some a.packetLost else none

/-- `onPacketReceived`, with `none` when `fuel` turns of its loop are not enough as well. The timer
is looked at no more than once, since a turn after it has run out starts it anew. -/
def onPacketReceived (expired : Bool) :
    Nat → AAVCAssembler → List ABuffer → Option (AAVCAssembler × List ABuffer)
  | 0, _, _ => none
  | fuel + 1, a, queue => do
    let (a, queue, status) ← assembleMore a queue
    match status with
    | .WRONG_SEQUENCE_NUMBER =>
      if a.mFirstFailure then
        if expired then
          let a ← packetLost { a with mFirstFailure := false }
          onPacketReceived expired fuel a queue
        else some (a, queue)
      else some ({ a with mFirstFailure := true }, queue)
    | .NOT_ENOUGH_DATA => some ({ a with mFirstFailure := false }, queue)
    | _ => onPacketReceived expired fuel { a with mFirstFailure := false } queue

/-! ### Nothing goes wrong -/

theorem erase_eq {queue : List ABuffer} {count : Nat} (h : count ≤ queue.length) :
    erase queue count = some (queue.drop count) := if_pos h

theorem addAggregated_eq (a : AAVCAssembler) (buffer : ABuffer) (data : List (BitVec 8)) :
    addAggregated a buffer data = some (a.addAggregated buffer data) := by
  induction a, data using AAVCAssembler.addAggregated.induct buffer with
  | case1 a data h =>
    rw [addAggregated, AAVCAssembler.addAggregated, dif_pos h, dif_pos h]
  | case2 a data h nalSize hshort =>
    rw [addAggregated, AAVCAssembler.addAggregated, dif_neg h, dif_neg h, if_pos hshort,
      Buffer.getElem?_eq_getD 0 (by omega), Buffer.getElem?_eq_getD 0 (by omega)]
    exact if_pos hshort
  | case3 a data h nalSize hlong ih =>
    have hroom : 2 + nalSize ≤ data.length := by omega
    rw [addAggregated, AAVCAssembler.addAggregated, dif_neg h, dif_neg h, if_neg hlong,
      Buffer.getElem?_eq_getD 0 (by omega), Buffer.getElem?_eq_getD 0 (by omega)]
    refine (if_neg hlong).trans ?_
    show (Buffer.load data 2 nalSize).bind _ = _
    rw [Buffer.load_eq hroom]
    exact ih

theorem addSingleTimeAggregationPacket_eq (a : AAVCAssembler) (buffer : ABuffer) :
    addSingleTimeAggregationPacket a buffer = some (a.addSingleTimeAggregationPacket buffer) := by
  rw [addSingleTimeAggregationPacket, AAVCAssembler.addSingleTimeAggregationPacket,
    addAggregated_eq]
  split <;> rfl

/-- Every fragment the loop has gone past holds two bytes, and none of them is past the end. -/
theorem scanFragments_eq (indicator nalType : BitVec 8) (queue : List ABuffer) (totalCount : Nat)
    (expectedSeqNo : BitVec 32) :
    scanFragments indicator nalType queue totalCount expectedSeqNo =
      some (AAVCAssembler.scanFragments indicator nalType queue totalCount expectedSeqNo) := by
  induction queue generalizing totalCount expectedSeqNo with
  | nil => rfl
  | cons b queue ih =>
    rw [scanFragments, AAVCAssembler.scanFragments]
    by_cases hseq : b.seqNo ≠ expectedSeqNo
    · rw [if_pos hseq, if_pos hseq]
    rw [if_neg hseq, if_neg hseq]
    by_cases hshort : b.data.length < 2
    · rw [if_pos hshort, if_pos (.inl hshort)]
    rw [if_neg hshort, Buffer.getElem?_eq_getD 0 (by omega), Buffer.getElem?_eq_getD 0 (by omega)]
    simp only [hshort, false_or, Option.bind_eq_bind, Option.bind_some, ih]
    split
    · rfl
    · split <;> rfl

theorem pieces_eq {queue : List ABuffer} (h : ∀ b ∈ queue, 2 ≤ b.data.length) :
    pieces queue = some (queue.flatMap fun b => b.data.drop 2) := by
  induction queue with
  | nil => rfl
  | cons b queue ih =>
    have htwo := h b List.mem_cons_self
    have hpiece : Ring.slice b.data 2 (b.data.length - 2) = b.data.drop 2 :=
      List.take_of_length_le (by rw [List.length_drop])
    rw [pieces, if_neg (Nat.not_lt.mpr htwo), Buffer.load_eq (by omega), hpiece,
      ih fun b' hb' => h b' (List.mem_cons_of_mem b hb')]
    rfl

theorem addFragmentedNALUnit_eq {a : AAVCAssembler} {buffer : ABuffer} {rest : List ABuffer}
    (hsize : 0 < buffer.data.length) (htype : buffer.data.getD 0 0 &&& 0x1f = 28) :
    addFragmentedNALUnit a buffer rest = some (a.addFragmentedNALUnit buffer rest) := by
  rw [addFragmentedNALUnit, AAVCAssembler.addFragmentedNALUnit, Buffer.getElem?_eq_getD 0 hsize]
  simp only [Option.bind_eq_bind, Option.bind_some, htype, ne_eq, not_true, if_false]
  by_cases hshort : buffer.data.length < 2
  · rw [if_pos hshort, if_pos hshort]
  rw [if_neg hshort, if_neg hshort, Buffer.getElem?_eq_getD 0 (by omega), Option.bind_some]
  split
  · rfl
  by_cases hend : buffer.data.getD 1 0 &&& 0x40 ≠ 0
  · have htwo : ∀ b ∈ (buffer :: rest).take 1, 2 ≤ b.data.length := by
      rw [List.take_succ_cons, List.take_zero]
      exact List.forall_mem_singleton.mpr (Nat.le_of_not_lt hshort)
    have hpieces := pieces_eq htwo
    simp only [if_pos hend, Option.bind_some, hpieces]
    rfl
  · rw [if_neg hend, if_neg hend, scanFragments_eq, Option.bind_some]
    cases hfragments : AAVCAssembler.scanFragments (buffer.data.getD 0 0)
        (buffer.data.getD 1 0 &&& 0x1f) rest 1 (buffer.seqNo + 1) with
    | incomplete => rfl
    | wrongSequence => rfl
    | malformed totalCount expectedSeqNo =>
      obtain ⟨k, b, rfl, hb, -⟩ := scanFragments_spec.2 _ _ hfragments
      have hk := (List.getElem?_eq_some_iff.mp hb).1
      have hroom : 1 + k + 1 ≤ (buffer :: rest).length := by
        rw [List.length_cons]
        omega
      simp only [erase_eq hroom, Option.bind_some]
    | complete totalCount expectedSeqNo =>
      obtain ⟨k, b, rfl, hb, -, hall⟩ := scanFragments_spec.1 _ _ hfragments
      have hk := (List.getElem?_eq_some_iff.mp hb).1
      have hroom : 1 + k + 1 ≤ (buffer :: rest).length := by
        rw [List.length_cons]
        omega
      have htwo : ∀ b' ∈ (buffer :: rest).take (1 + k + 1), 2 ≤ b'.data.length := by
        rw [show 1 + k + 1 = k + 1 + 1 by omega, List.take_succ_cons]
        intro b' hb'
        rcases List.mem_cons.mp hb' with rfl | hmem
        · exact Nat.le_of_not_lt hshort
        · exact hall b' hmem
      simp only [pieces_eq htwo, erase_eq hroom, Option.bind_some]

theorem addBuffer_eq (a : AAVCAssembler) (buffer : ABuffer) (rest : List ABuffer) :
    addBuffer a buffer rest = some (a.addBuffer buffer rest) := by
  rw [addBuffer, AAVCAssembler.addBuffer]
  dsimp only
  by_cases hempty : buffer.data.length < 1
  · rw [if_pos hempty, if_pos (.inl hempty)]
  rw [if_neg hempty, Buffer.getElem?_eq_getD 0 (by omega)]
  simp only [hempty, false_or, Option.bind_eq_bind, Option.bind_some,
    addSingleTimeAggregationPacket_eq]
  split
  · rfl
  split
  · rfl
  split
  next htype =>
    exact addFragmentedNALUnit_eq (by omega) (BitVec.eq_of_toNat_eq htype)
  split
  · rfl
  · split <;> rfl

theorem addNALUnit_eq (a : AAVCAssembler) (queue : List ABuffer) :
    addNALUnit a queue = some (a.addNALUnit queue) := by
  rw [addNALUnit, AAVCAssembler.addNALUnit]
  simp only [addBuffer_eq]
  generalize (if a.mNextExpectedSeqNoValid then
    queue.dropWhile fun b => b.seqNo.toNat < a.mNextExpectedSeqNo.toNat else queue) = left
  cases left with
  | nil => rfl
  | cons buffer rest =>
    dsimp only
    split
    · split <;> rfl
    · rfl

/-- All reads are inside the packets, all erased packets are on the queue. -/
theorem assembleMore_eq (a : AAVCAssembler) (queue : List ABuffer) :
    assembleMore a queue = some (a.assembleMore queue) := by
  rw [assembleMore, AAVCAssembler.assembleMore, addNALUnit_eq]
  simp only [Option.bind_eq_bind, Option.bind_some]
  split <;> rfl

end Checked

end MediaFramework.Rtsp.AAVCAssembler
