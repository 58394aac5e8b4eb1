import MediaFramework.Rtsp.AVCPackets
import Mathlib.Data.List.TakeWhile

/-!
# Reassembling a NAL unit

The assembler takes a NAL unit off its queue as soon as all packets of it are there, and waits
for the missing ones otherwise.
-/

namespace MediaFramework.Rtsp

open ARTPWriter AAVCAssembler

/-! ### Fragment headers -/

theorem fuHeader_type (nalType : BitVec 8) (firstPacket lastPacket : Bool) :
    ((if firstPacket then 0x80 else 0x00) ||| (if lastPacket then 0x40 else 0x00) |||
      (nalType &&& 0x1f)) &&& 0x1f = nalType &&& 0x1f := by
  revert nalType firstPacket lastPacket
  decide +kernel

theorem fuHeader_first (nalType : BitVec 8) (firstPacket lastPacket : Bool) :
    ((if firstPacket then 0x80 else 0x00) ||| (if lastPacket then 0x40 else 0x00) |||
      (nalType &&& 0x1f)) &&& 0x80 = if firstPacket then 0x80 else 0 := by
  revert nalType firstPacket lastPacket
  decide +kernel

theorem fuHeader_last (nalType : BitVec 8) (firstPacket lastPacket : Bool) :
    ((if firstPacket then 0x80 else 0x00) ||| (if lastPacket then 0x40 else 0x00) |||
      (nalType &&& 0x1f)) &&& 0x40 = if lastPacket then 0x40 else 0 := by
  revert nalType firstPacket lastPacket
  decide +kernel

/-- The indicator has the forbidden bit of the NAL unit and the type of a fragment. -/
theorem indicator_type (nalType : BitVec 8) :
    (28 ||| (nalType &&& 0xe0)) &&& 0x80 = nalType &&& 0x80 ∧
      ((28 ||| (nalType &&& 0xe0)) &&& 0x1f).toNat = 28 := by
  revert nalType
  decide +kernel

/-- The first byte of the NAL unit comes back from the two bytes of a fragment. -/
theorem nalType_eq (nalType : BitVec 8) (h : nalType &&& 0x80 = 0) :
    ((((28 ||| (nalType &&& 0xe0)) >>> 5) &&& 3) <<< 5) ||| (nalType &&& 0x1f) = nalType := by
  revert nalType
  decide +kernel

variable {rtpTime : BitVec 32} {nalType : BitVec 8} {data : List (BitVec 8)}
  {firstPacket : Bool} {arrived : ABuffer → Bool} {n : Nat}
  {items : List (BitVec 32 × List (BitVec 8))}

theorem fragments_nil (nalType : BitVec 8) (firstPacket : Bool) :
    fragments nalType [] firstPacket = [] := by
  rw [fragments, dif_pos rfl]

theorem fragments_cons (h : data ≠ []) :
    fragments nalType data firstPacket =
      (fuHeader nalType firstPacket (isLast data.length) ++ data.take (fragmentSize data.length)) ::
        fragments nalType (data.drop (fragmentSize data.length)) false := by
  rw [fragments, dif_neg h]

/-- After the last fragment there is nothing left, and before it there is. -/
theorem drop_fragment_eq_nil_iff (data : List (BitVec 8)) :
    data.drop (fragmentSize data.length) = [] ↔ isLast data.length := by
  rw [List.drop_eq_nil_iff]
  by_cases hlast : isLast data.length
  · rw [fragmentSize, if_pos hlast]
    exact iff_of_true (Nat.le_refl _) hlast
  · have hsize : fragmentSize data.length = 1486 := by rw [fragmentSize, if_neg hlast]; rfl
    have hlong : ¬data.length + 12 + 2 ≤ 1500 := fun hle => hlast (decide_eq_true hle)
    refine iff_of_false ?_ hlast
    omega

theorem flatMap_fragments (nalType : BitVec 8) (data : List (BitVec 8)) (firstPacket : Bool) :
    (fragments nalType data firstPacket).flatMap (List.drop 2) = data := by
  induction hlen : data.length using Nat.strongRecOn generalizing data firstPacket with
  | ind len ih =>
  subst hlen
  by_cases hnil : data = []
  · rw [hnil, fragments_nil]
    rfl
  · have hpos := List.length_pos_iff.mpr hnil
    have hsize := fragmentSize_pos hpos
    rw [fragments_cons hnil, List.flatMap_cons, ih _ (by rw [List.length_drop]; omega) _ _ rfl]
    exact List.take_append_drop _ _

/-! ### Queues with gaps -/

theorem mem_number {b : ABuffer} (h : b ∈ number n items) (hrange : n + items.length ≤ 2^32) :
    n ≤ b.seqNo.toNat ∧ b.seqNo.toNat < n + items.length := by
  induction items generalizing n with
  | nil => cases h
  | cons item items ih =>
    obtain ⟨t, payload⟩ := item
    rw [List.length_cons] at hrange ⊢
    obtain rfl | h := List.mem_cons.mp h
    · show n ≤ n % 2^32 ∧ n % 2^32 < _
      omega
    · have hmem := ih h (by omega)
      omega

/-- Without the packet at its head a queue starts further on. -/
theorem head_number_ne {b : ABuffer} {queue : List ABuffer}
    (h : (number (n + 1) items).filter arrived = b :: queue)
    (hrange : n + 1 + items.length ≤ 2^32) : b.seqNo ≠ BitVec.ofNat 32 n := by
  rintro heq
  have hb : b ∈ (number (n + 1) items).filter arrived := by
    rw [h]
    exact List.mem_cons_self
  have hmem := mem_number (List.mem_of_mem_filter hb) hrange
  rw [heq, BitVec.toNat_ofNat] at hmem
  omega

/-- A queue that starts with the number `n` starts with the packet of that number. -/
theorem head_number {packet : List (BitVec 8)} {buffer : ABuffer} {rest : List ABuffer}
    (h : (number n ((rtpTime, packet) :: items)).filter arrived = buffer :: rest)
    (hbuffer : buffer.seqNo = BitVec.ofNat 32 n) (hrange : n + 1 + items.length ≤ 2^32) :
    arrived ⟨BitVec.ofNat 32 n, rtpTime, packet⟩ ∧
      buffer = ⟨BitVec.ofNat 32 n, rtpTime, packet⟩ ∧
      rest = (number (n + 1) items).filter arrived := by
  rw [number] at h
  by_cases harrived : arrived ⟨BitVec.ofNat 32 n, rtpTime, packet⟩
  · rw [List.filter_cons_of_pos harrived] at h
    obtain ⟨rfl, rfl⟩ := List.cons.inj h
    exact ⟨harrived, rfl, rfl⟩
  · rw [List.filter_cons_of_neg harrived] at h
    exact absurd hbuffer (head_number_ne h hrange)

/-- A fragment after the first one, at the head of the queue. -/
theorem scanFragments_fragment (queue : List ABuffer) (seqNo : BitVec 32) (lastPacket : Bool)
    (payload : List (BitVec 8)) (count : Nat) :
    scanFragments (28 ||| (nalType &&& 0xe0)) (nalType &&& 0x1f)
        (⟨seqNo, rtpTime, fuHeader nalType false lastPacket ++ payload⟩ :: queue) count seqNo =
      if lastPacket then .complete (count + 1) (seqNo + 1)
      else scanFragments (28 ||| (nalType &&& 0xe0)) (nalType &&& 0x1f) queue (count + 1)
        (seqNo + 1) := by
  have htype := fuHeader_type nalType false lastPacket
  have hfirst := fuHeader_first nalType false lastPacket
  have hlast := fuHeader_last nalType false lastPacket
  rw [scanFragments, if_neg (fun h => h rfl)]
  simp only [fuHeader, List.cons_append, List.nil_append, List.length_cons,
    List.getD_cons_zero, List.getD_cons_succ, htype, hfirst, hlast]
  rw [if_neg (by simp)]
  cases lastPacket with
  | true => rfl
  | false => rfl

/-- The fragments behind the first one are found if they have all arrived; else the search ends
at the first gap. -/
theorem scanFragments_spec (arrived : ABuffer → Bool) (rtpTime : BitVec 32) (nalType : BitVec 8)
    (items : List (BitVec 32 × List (BitVec 8))) (n count : Nat) (hdata : data ≠ [])
    (hrange : n + (fragments nalType data false).length + items.length ≤ 2^32) :
    ((∀ b ∈ number n ((fragments nalType data false).map (rtpTime, ·)), arrived b) →
      scanFragments (28 ||| (nalType &&& 0xe0)) (nalType &&& 0x1f)
          ((number n ((fragments nalType data false).map (rtpTime, ·) ++ items)).filter arrived) count
          (BitVec.ofNat 32 n) =
        .complete (count + (fragments nalType data false).length)
          (BitVec.ofNat 32 (n + (fragments nalType data false).length))) ∧
    ((∃ b ∈ number n ((fragments nalType data false).map (rtpTime, ·)), arrived b = false) →
      scanFragments (28 ||| (nalType &&& 0xe0)) (nalType &&& 0x1f)
          ((number n ((fragments nalType data false).map (rtpTime, ·) ++ items)).filter arrived) count
          (BitVec.ofNat 32 n) ∈ [Fragments.incomplete, .wrongSequence]) := by
  induction hlen : data.length using Nat.strongRecOn generalizing data n count with
  | ind len ih =>
  subst hlen
  have hpos := List.length_pos_iff.mpr hdata
  have hsize := fragmentSize_pos hpos
  have hnext : BitVec.ofNat 32 n + 1 = BitVec.ofNat 32 (n + 1) := by rw [BitVec.ofNat_add]; rfl
  rw [fragments_cons hdata] at hrange ⊢
  rw [List.length_cons] at hrange ⊢
  rw [List.map_cons, List.cons_append, number, number]
  by_cases hhead : arrived ⟨BitVec.ofNat 32 n, rtpTime,
      fuHeader nalType false (isLast data.length) ++ data.take (fragmentSize data.length)⟩
  · rw [List.filter_cons_of_pos hhead, scanFragments_fragment, hnext]
    by_cases hlast : isLast data.length
    · have hnil := (drop_fragment_eq_nil_iff data).mpr hlast
      rw [if_pos hlast, hnil, fragments_nil]
      refine ⟨fun _ => rfl, ?_⟩
      rintro ⟨b, hb, hmissing⟩
      rw [List.mem_singleton.mp hb, hhead] at hmissing
      cases hmissing
    · have hnil := (drop_fragment_eq_nil_iff data).not.mpr hlast
      rw [if_neg hlast]
      obtain ⟨hall, hgap⟩ := ih (data.drop (fragmentSize data.length)).length
        (by rw [List.length_drop]; omega) (n + 1) (count + 1) hnil (by omega) rfl
      constructor
      · intro harrived
        rw [hall fun b hb => harrived b (List.mem_cons_of_mem _ hb), Nat.add_right_comm count 1,
          Nat.add_right_comm n 1]
        rfl
      · rintro ⟨b, hb, hmissing⟩
        obtain rfl | hb := List.mem_cons.mp hb
        · rw [hhead] at hmissing
          cases hmissing
        · exact hgap ⟨b, hb, hmissing⟩
  · rw [List.filter_cons_of_neg hhead]
    constructor
    · intro harrived
      exact absurd (harrived _ List.mem_cons_self) hhead
    · intro _
      generalize hqueue : (number (n + 1) ((fragments nalType
        (data.drop (fragmentSize data.length)) false).map (rtpTime, ·) ++ items)).filter arrived =
          queue
      cases queue with
      | nil => exact List.mem_cons_self
      | cons b queue =>
        have hne := head_number_ne hqueue (by rw [List.length_append, List.length_map]; omega)
        rw [scanFragments, if_pos hne]
        exact List.mem_cons_of_mem _ List.mem_cons_self

/-! ### A NAL unit at the head of the queue -/

variable {a : AAVCAssembler} {nal : List (BitVec 8)}

@[simp]
theorem addSingleNALUnit_next (a : AAVCAssembler) (buffer : ABuffer) :
    (a.addSingleNALUnit buffer).mNextExpectedSeqNo = a.mNextExpectedSeqNo := by
  rw [addSingleNALUnit]
  split
  · rw [submitAccessUnit]
    split <;> rfl
  · rfl

theorem addSingleNALUnit_withNext (a : AAVCAssembler) (buffer : ABuffer) (next : BitVec 32) :
    { a with mNextExpectedSeqNo := next }.addSingleNALUnit buffer =
      { a.addSingleNALUnit buffer with mNextExpectedSeqNo := next } := by
  obtain ⟨_, time, _, _, _, units, _⟩ := a
  simp only [addSingleNALUnit, submitAccessUnit]
  cases units with
  | nil => rw [if_neg (fun h => h.1 rfl), if_neg (fun h => h.1 rfl)]
  | cons unit units =>
    dsimp only
    split
    · rfl
    · rfl

/-- The assembler after a NAL unit, with `next` the number it expects. -/
def withUnit (a : AAVCAssembler) (seqNo rtpTime : BitVec 32) (nal : List (BitVec 8))
    (next : Nat) : AAVCAssembler :=
  { a.addSingleNALUnit ⟨seqNo, rtpTime, nal⟩ with mNextExpectedSeqNo := BitVec.ofNat 32 next }

/-- A NAL unit in a single packet. -/
theorem addBuffer_single (h : Sendable nal) (hnext : a.mNextExpectedSeqNo = BitVec.ofNat 32 n)
    (rest : List ABuffer) :
    a.addBuffer ⟨BitVec.ofNat 32 n, rtpTime, nal⟩ rest =
      (withUnit a (BitVec.ofNat 32 n) rtpTime nal (n + 1), rest, .OK) := by
  obtain ⟨hne, hforbidden, hlow, hhigh⟩ := h
  have hpos := List.length_pos_iff.mpr hne
  have hvalid : ¬(nal.length < 1 ∨ nal.getD 0 0 &&& 0x80 ≠ 0) := by
    rintro (h | h)
    · omega
    · exact h hforbidden
  rw [addBuffer]
  dsimp only
  rw [if_neg hvalid, if_pos ⟨hlow, hhigh⟩, withUnit, addSingleNALUnit_next, hnext, BitVec.ofNat_add]
  rfl

/-- With the first fragment of a NAL unit the search for the others begins. -/
theorem addBuffer_firstFragment (hforbidden : nalType &&& 0x80 = 0) (seqNo : BitVec 32)
    (rest : List ABuffer) :
    a.addBuffer ⟨seqNo, rtpTime, fuHeader nalType true false ++ data⟩ rest =
      let queue := ⟨seqNo, rtpTime, fuHeader nalType true false ++ data⟩ :: rest
      match scanFragments (28 ||| (nalType &&& 0xe0)) (nalType &&& 0x1f) rest 1 (seqNo + 1) with
      | .incomplete => (a, queue, .NOT_ENOUGH_DATA)
      | .wrongSequence => (a, queue, .WRONG_SEQUENCE_NUMBER)
      | .malformed totalCount expectedSeqNo =>
        ({ a with mNextExpectedSeqNo := expectedSeqNo + 1 }, queue.drop (totalCount + 1),
          .MALFORMED_PACKET)
      | .complete totalCount expectedSeqNo =>
        (({ a with mNextExpectedSeqNo := expectedSeqNo }).addSingleNALUnit
          ⟨seqNo, rtpTime, nalType :: (queue.take totalCount).flatMap fun (b : ABuffer) => b.data.drop 2⟩,
          queue.drop totalCount, .OK) := by
  obtain ⟨hbit, htype⟩ := indicator_type nalType
  have hfirst := fuHeader_first nalType true false
  have hlast := fuHeader_last nalType true false
  have hlow := fuHeader_type nalType true false
  have hunit := nalType_eq nalType hforbidden
  rw [hforbidden] at hbit
  simp only [fuHeader, List.cons_append, List.nil_append] at hbit htype hfirst hlast hlow ⊢
  rw [addBuffer]
  simp only [List.length_cons, List.getD_cons_zero, hbit, htype]
  rw [if_neg (by simp), if_neg (by simp), if_pos trivial, addFragmentedNALUnit]
  simp only [List.length_cons, List.getD_cons_zero, List.getD_cons_succ, hfirst, hlast, hlow, hunit]
  rw [if_neg (by simp), if_neg (by simp)]
  rfl

theorem payloads_ne_nil (nal : List (BitVec 8)) : payloads nal ≠ [] := by
  rw [payloads]
  split
  · exact List.cons_ne_nil _ _
  · next hlong =>
    have hdata : nal.drop 1 ≠ [] := by
      intro hnil
      have hlen := List.drop_eq_nil_iff.mp hnil
      simp only [kMaxPacketSize] at hlong
      omega
    rw [fragments_cons hdata]
    exact List.cons_ne_nil _ _

/-- What does not fit into a packet goes out in a first fragment and others. -/
theorem payloads_fragmented (hlong : ¬nal.length + 12 ≤ kMaxPacketSize) :
    ∃ nalType first rest, nal = nalType :: (first ++ rest) ∧ rest ≠ [] ∧
      payloads nal =
        (fuHeader nalType true false ++ first) :: fragments nalType rest false := by
  cases nal with
  | nil => exact absurd (by decide) hlong
  | cons nalType data =>
    have hlast : isLast data.length = false := by
      apply decide_eq_false
      rw [List.length_cons] at hlong
      simp only [kMaxPacketSize] at hlong ⊢
      omega
    have hdata : data ≠ [] := by
      intro hnil
      rw [hnil] at hlast
      cases hlast
    refine ⟨nalType, data.take (fragmentSize data.length), data.drop (fragmentSize data.length), ?_,
      ?_, ?_⟩
    · rw [List.take_append_drop]
    · intro hnil
      rw [drop_fragment_eq_nil_iff, hlast] at hnil
      cases hnil
    · rw [payloads, if_neg hlong, List.drop_one, List.tail_cons, List.getD_cons_zero,
        fragments_cons hdata, hlast]

theorem flatMap_number (n : Nat) (rtpTime : BitVec 32) (packets : List (List (BitVec 8))) :
    (number n (packets.map (rtpTime, ·))).flatMap (fun b => b.data.drop 2) =
      packets.flatMap (List.drop 2) := by
  induction packets generalizing n with
  | nil => rfl
  | cons packet packets ih => rw [List.map_cons, number, List.flatMap_cons, ih, List.flatMap_cons]

/-- A whole prefix of a queue that has arrived. -/
theorem filter_number_append {front : List (BitVec 32 × List (BitVec 8))}
    (h : ∀ b ∈ number n front, arrived b) :
    (number n (front ++ items)).filter arrived =
      number n front ++ (number (n + front.length) items).filter arrived := by
  rw [number_append, List.filter_append, List.filter_eq_self.mpr h]

/-- The packets of a NAL unit at the head of the queue make the unit if they are all there. -/
theorem addBuffer_spec (h : Sendable nal) (hnext : a.mNextExpectedSeqNo = BitVec.ofNat 32 n)
    (hrange : n + (payloads nal).length + items.length ≤ 2^32) {buffer : ABuffer}
    {rest : List ABuffer}
    (hqueue : (number n ((payloads nal).map (rtpTime, ·) ++ items)).filter arrived =
      buffer :: rest) (hbuffer : buffer.seqNo = BitVec.ofNat 32 n) :
    ((∀ b ∈ number n ((payloads nal).map (rtpTime, ·)), arrived b) →
      a.addBuffer buffer rest =
        (withUnit a (BitVec.ofNat 32 n) rtpTime nal (n + (payloads nal).length),
          (number (n + (payloads nal).length) items).filter arrived, .OK)) ∧
    ((∃ b ∈ number n ((payloads nal).map (rtpTime, ·)), arrived b = false) →
      ∃ status ∈ [AssemblyStatus.NOT_ENOUGH_DATA, .WRONG_SEQUENCE_NUMBER],
        a.addBuffer buffer rest = (a, buffer :: rest, status)) := by
  by_cases hsmall : nal.length + 12 ≤ kMaxPacketSize
  · have hpayloads : payloads nal = [nal] := by rw [payloads, if_pos hsmall]
    rw [hpayloads] at hrange hqueue ⊢
    obtain ⟨harrived, rfl, rfl⟩ := head_number hqueue hbuffer hrange
    refine ⟨fun _ => addBuffer_single h hnext _, ?_⟩
    rintro ⟨b, hb, hmissing⟩
    rw [List.mem_singleton.mp hb, harrived] at hmissing
    cases hmissing
  · obtain ⟨nalType, first, others, rfl, hne, hpayloads⟩ := payloads_fragmented hsmall
    have hforbidden := h.2.1
    rw [List.getD_cons_zero] at hforbidden
    rw [hpayloads, List.length_cons] at hrange
    rw [hpayloads, List.map_cons, List.cons_append] at hqueue
    have hlength : n + 1 + ((fragments nalType others false).map (rtpTime, ·) ++ items).length ≤
        2^32 := by
      rw [List.length_append, List.length_map]
      omega
    obtain ⟨harrived, rfl, rfl⟩ := head_number hqueue hbuffer hlength
    obtain ⟨hall, hgap⟩ :=
      scanFragments_spec arrived rtpTime nalType items (n + 1) 1 hne (by omega)
    have hsucc : BitVec.ofNat 32 n + 1 = BitVec.ofNat 32 (n + 1) := by rw [BitVec.ofNat_add]; rfl
    rw [addBuffer_firstFragment hforbidden, hsucc, hpayloads, List.map_cons, number]
    dsimp only
    constructor
    · intro harrived'
      have hothers : ∀ b ∈ number (n + 1) ((fragments nalType others false).map (rtpTime, ·)),
          arrived b := fun b hb => harrived' b (List.mem_cons_of_mem _ hb)
      have hlen : 1 + (fragments nalType others false).length =
          (⟨BitVec.ofNat 32 n, rtpTime, fuHeader nalType true false ++ first⟩ ::
            number (n + 1) ((fragments nalType others false).map (rtpTime, ·))).length := by
        rw [List.length_cons, length_number, List.length_map, Nat.add_comm]
      rw [hall hothers, filter_number_append hothers]
      dsimp only
      rw [← List.cons_append, hlen, List.take_left, List.drop_left, List.flatMap_cons, flatMap_number,
        flatMap_fragments, List.length_map, List.length_cons, ← Nat.add_right_comm, withUnit,
        addSingleNALUnit_withNext]
      rfl
    · rintro ⟨b, hb, hmissing⟩
      obtain rfl | hb := List.mem_cons.mp hb
      · rw [harrived] at hmissing
        cases hmissing
      · have hscan := hgap ⟨b, hb, hmissing⟩
        rw [List.mem_cons, List.mem_singleton] at hscan
        obtain hscan | hscan := hscan
        · rw [hscan]
          exact ⟨_, List.mem_cons_self, rfl⟩
        · rw [hscan]
          exact ⟨_, List.mem_cons_of_mem _ List.mem_cons_self, rfl⟩

/-- Where a queue starts nothing is below the number that is expected. -/
theorem dropWhile_number (arrived : ABuffer → Bool) (n : Nat)
    (items : List (BitVec 32 × List (BitVec 8))) (hrange : n + items.length ≤ 2^32) :
    ((number n items).filter arrived).dropWhile
        (fun b => b.seqNo.toNat < (BitVec.ofNat 32 n).toNat) =
      (number n items).filter arrived := by
  rw [List.dropWhile_eq_self_iff]
  intro hlength
  have hmem := mem_number (List.mem_of_mem_filter (List.getElem_mem hlength)) hrange
  have hle : (BitVec.ofNat 32 n).toNat ≤ n := by
    rw [BitVec.toNat_ofNat]
    exact Nat.mod_le _ _
  rw [decide_eq_true_eq]
  omega

theorem assembleMore_eq {queue queue' : List ABuffer} {a' : AAVCAssembler} {status : AssemblyStatus}
    (h : a.addNALUnit queue = (a', queue', status)) (hstatus : status ≠ .MALFORMED_PACKET) :
    a.assembleMore queue = (a', queue', status) := by
  rw [assembleMore, h]
  exact if_neg hstatus

/-- One call takes the first NAL unit off the queue if all packets of it are there, and changes
nothing otherwise. -/
theorem assembleMore_spec (arrived : ABuffer → Bool) (rtpTime : BitVec 32)
    (items : List (BitVec 32 × List (BitVec 8))) (h : Sendable nal) (hvalid : a.mNextExpectedSeqNoValid)
    (hnext : a.mNextExpectedSeqNo = BitVec.ofNat 32 n)
    (hrange : n + (payloads nal).length + items.length ≤ 2^32) :
    ((∀ b ∈ number n ((payloads nal).map (rtpTime, ·)), arrived b) →
      a.assembleMore ((number n ((payloads nal).map (rtpTime, ·) ++ items)).filter arrived) =
        (withUnit a (BitVec.ofNat 32 n) rtpTime nal (n + (payloads nal).length),
          (number (n + (payloads nal).length) items).filter arrived, .OK)) ∧
    ((∃ b ∈ number n ((payloads nal).map (rtpTime, ·)), arrived b = false) →
      ∃ status ∈ [AssemblyStatus.NOT_ENOUGH_DATA, .WRONG_SEQUENCE_NUMBER],
        a.assembleMore ((number n ((payloads nal).map (rtpTime, ·) ++ items)).filter arrived) =
          (a, (number n ((payloads nal).map (rtpTime, ·) ++ items)).filter arrived, status)) := by
  have hdrop := dropWhile_number arrived n ((payloads nal).map (rtpTime, ·) ++ items)
    (by rw [List.length_append, List.length_map]; omega)
  have hnil : (number n ((payloads nal).map (rtpTime, ·) ++ items)).filter arrived = [] →
      a.addNALUnit [] = (a, [], .NOT_ENOUGH_DATA) := by
    intro hqueue
    rw [hqueue] at hdrop
    rw [addNALUnit, if_pos hvalid, hnext, hdrop]
  have hcons : ∀ buffer rest,
      (number n ((payloads nal).map (rtpTime, ·) ++ items)).filter arrived = buffer :: rest →
      a.addNALUnit (buffer :: rest) =
        if buffer.seqNo ≠ BitVec.ofNat 32 n then (a, buffer :: rest, .WRONG_SEQUENCE_NUMBER)
        else a.addBuffer buffer rest := by
    intro buffer rest hqueue
    rw [hqueue] at hdrop
    rw [addNALUnit, if_pos hvalid, hnext, hdrop]
    exact if_pos hvalid
  obtain ⟨nalType, others, hpayloads⟩ := List.exists_cons_of_ne_nil (payloads_ne_nil nal)
  generalize hqueue : (number n ((payloads nal).map (rtpTime, ·) ++ items)).filter arrived = queue
  have hstart : (∀ b ∈ number n ((payloads nal).map (rtpTime, ·)), arrived b) →
      ∃ buffer rest, queue = buffer :: rest ∧ buffer.seqNo = BitVec.ofNat 32 n := by
    intro harrived
    rw [filter_number_append harrived, hpayloads, List.map_cons, number] at hqueue
    exact ⟨_, _, hqueue.symm, rfl⟩
  constructor
  · intro harrived
    obtain ⟨buffer, rest, rfl, hbuffer⟩ := hstart harrived
    apply assembleMore_eq _ (by decide)
    rw [hcons _ _ hqueue, if_neg (fun hne => hne hbuffer)]
    exact (addBuffer_spec h hnext hrange hqueue hbuffer).1 harrived
  · intro hmissing
    cases queue with
    | nil => exact ⟨_, List.mem_cons_self, assembleMore_eq (hnil hqueue) (by decide)⟩
    | cons buffer rest =>
      by_cases hbuffer : buffer.seqNo = BitVec.ofNat 32 n
      · obtain ⟨status, hstatus, heq⟩ := (addBuffer_spec h hnext hrange hqueue hbuffer).2 hmissing
        refine ⟨status, hstatus, assembleMore_eq ?_ ?_⟩
        · rw [hcons _ _ hqueue, if_neg (fun hne => hne hbuffer), heq]
        · intro hmalformed
          rw [hmalformed] at hstatus
          simp at hstatus
      · refine ⟨_, List.mem_cons_of_mem _ List.mem_cons_self, assembleMore_eq ?_ (by decide)⟩
        rw [hcons _ _ hqueue]
        exact if_pos hbuffer

end MediaFramework.Rtsp
