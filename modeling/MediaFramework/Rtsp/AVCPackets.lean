import MediaFramework.Rtsp.AVCAssembler

/-!
# What is on the wire for a NAL unit

The payloads of the packets that carry a NAL unit, and how the receiver gets them back from the
packets of the sender.
-/

namespace MediaFramework.Rtsp

open ARTPWriter

/-- A NAL unit that a single packet may carry as it is: the forbidden bit is 0 and the type is one
of 1 to 23. -/
def Sendable (nal : List (BitVec 8)) : Prop :=
  nal ≠ [] ∧ nal.getD 0 0 &&& 0x80 = 0 ∧
    1 ≤ (nal.getD 0 0 &&& 0x1f).toNat ∧ (nal.getD 0 0 &&& 0x1f).toNat ≤ 23

instance (nal : List (BitVec 8)) : Decidable (Sendable nal) := inferInstanceAs (Decidable (_ ∧ _))

/-- The payloads of fragments for the rest of a NAL unit. -/
def fragments (nalType : BitVec 8) (data : List (BitVec 8)) (firstPacket : Bool) :
    List (List (BitVec 8)) :=
  if _h : data = [] then []
  else
    (fuHeader nalType firstPacket (isLast data.length) ++ data.take (fragmentSize data.length)) ::
      fragments nalType (data.drop (fragmentSize data.length)) false
termination_by data.length
decreasing_by
  have hpos := List.length_pos_iff.mpr _h
  have hsize := fragmentSize_pos hpos
  rw [List.length_drop]
  omega

def payloads (nal : List (BitVec 8)) : List (List (BitVec 8)) :=
  if nal.length + 12 ≤ kMaxPacketSize then [nal]
  else fragments (nal.getD 0 0) (nal.drop 1) true

/-- The RTP time in a header. -/
def headerTime (packet : List (BitVec 8)) : BitVec 32 :=
  packet.getD 4 0 ++ packet.getD 5 0 ++ packet.getD 6 0 ++ packet.getD 7 0

/-- The sequence number in a header. -/
def headerSeqNo (packet : List (BitVec 8)) : BitVec 16 := packet.getD 2 0 ++ packet.getD 3 0

/-- A packet as it comes to the assembler. -/
def receive (seqNo : BitVec 32) (packet : List (BitVec 8)) : ABuffer :=
  ⟨seqNo, headerTime packet, packet.drop 12⟩

/-- Packets in the order in which they were sent, with sequence numbers from `n` on. -/
def receiveAll (n : Nat) : List (List (BitVec 8)) → List ABuffer
  | [] => []
  | packet :: packets => receive (BitVec.ofNat 32 n) packet :: receiveAll (n + 1) packets

/-- Payloads with their times, with sequence numbers from `n` on. -/
def number (n : Nat) : List (BitVec 32 × List (BitVec 8)) → List ABuffer
  | [] => []
  | (rtpTime, data) :: items => ⟨BitVec.ofNat 32 n, rtpTime, data⟩ :: number (n + 1) items

/-- All payloads for a list of NAL units with their RTP times. -/
def allPayloads (nals : List (BitVec 32 × List (BitVec 8))) : List (BitVec 32 × List (BitVec 8)) :=
  nals.flatMap fun (rtpTime, nal) => (payloads nal).map (rtpTime, ·)

@[simp]
theorem length_number (n : Nat) (items : List (BitVec 32 × List (BitVec 8))) :
    (number n items).length = items.length := by
  induction items generalizing n with
  | nil => rfl
  | cons item items ih => rw [number, List.length_cons, List.length_cons, ih]

@[simp]
theorem length_receiveAll (n : Nat) (packets : List (List (BitVec 8))) :
    (receiveAll n packets).length = packets.length := by
  induction packets generalizing n with
  | nil => rfl
  | cons packet packets ih => rw [receiveAll, List.length_cons, List.length_cons, ih]

theorem number_append (n : Nat) (items items' : List (BitVec 32 × List (BitVec 8))) :
    number n (items ++ items') = number n items ++ number (n + items.length) items' := by
  induction items generalizing n with
  | nil => rfl
  | cons item items ih =>
    rw [List.cons_append, number, number, ih, List.cons_append, List.length_cons]
    congr 3
    omega

theorem receiveAll_append (n : Nat) (packets packets' : List (List (BitVec 8))) :
    receiveAll n (packets ++ packets') =
      receiveAll n packets ++ receiveAll (n + packets.length) packets' := by
  induction packets generalizing n with
  | nil => rfl
  | cons packet packets ih =>
    rw [List.cons_append, receiveAll, receiveAll, ih, List.cons_append, List.length_cons]
    congr 3
    omega

/-! ### The sender -/

variable {w : ARTPWriter} {rtpTime : BitVec 32}

theorem byte_append (x : BitVec 32) : byte x 3 ++ byte x 2 ++ byte x 1 ++ byte x 0 = x := by
  apply BitVec.eq_of_getLsbD_eq
  intro i hi
  simp only [byte, BitVec.getLsbD_append, BitVec.getLsbD_setWidth, BitVec.getLsbD_ushiftRight]
  by_cases h0 : i < 8
  · simp [h0]
  by_cases h1 : i - 8 < 8
  · have hsum : 8 + (i - 8) = i := by omega
    simp [h0, h1, hsum]
  by_cases h2 : i - 8 - 8 < 8
  · have hsum : 16 + (i - 8 - 8) = i := by omega
    simp [h0, h1, h2, hsum]
  · have hsum : 24 + (i - 8 - 8 - 8) = i := by omega
    have h3 : i - 8 - 8 - 8 < 8 := by omega
    simp [h0, h1, h2, h3, hsum]

theorem byte_append_low (x : BitVec 32) : byte x 1 ++ byte x 0 = x.setWidth 16 := by
  apply BitVec.eq_of_getLsbD_eq
  intro i hi
  simp only [byte, BitVec.getLsbD_append, BitVec.getLsbD_setWidth, BitVec.getLsbD_ushiftRight]
  by_cases h0 : i < 8
  · simp [h0, hi]
  · have hsum : 8 + (i - 8) = i := by omega
    have h1 : i - 8 < 8 := by omega
    simp [h0, h1, hi, hsum]

/-- The receiver gets time and payload back. -/
theorem receive_header (seqNo : BitVec 32) (lastPacket : Bool) (payload : List (BitVec 8)) :
    receive seqNo (w.header rtpTime lastPacket ++ payload) = ⟨seqNo, rtpTime, payload⟩ := by
  have htime : headerTime (w.header rtpTime lastPacket ++ payload) = rtpTime := byte_append rtpTime
  rw [receive, htime]
  rfl

theorem headerSeqNo_header (lastPacket : Bool) (payload : List (BitVec 8)) :
    headerSeqNo (w.header rtpTime lastPacket ++ payload) = w.mSeqNo.setWidth 16 :=
  byte_append_low w.mSeqNo

/-- The 16-bit numbers of `n` packets. -/
def seqNosFrom (seqNo : BitVec 32) : Nat → List (BitVec 16)
  | 0 => []
  | n + 1 => seqNo.setWidth 16 :: seqNosFrom (seqNo + 1) n

theorem seqNosFrom_add (seqNo : BitVec 32) (m n : Nat) :
    seqNosFrom seqNo (m + n) = seqNosFrom seqNo m ++ seqNosFrom (seqNo + BitVec.ofNat 32 m) n := by
  induction m generalizing seqNo with
  | zero => simp [seqNosFrom]
  | succ m ih =>
    have hnext : seqNo + 1 + BitVec.ofNat 32 m = seqNo + BitVec.ofNat 32 (m + 1) := by
      rw [BitVec.ofNat_add, BitVec.add_assoc, BitVec.add_comm 1]
      rfl
    rw [Nat.add_right_comm, seqNosFrom, ih, seqNosFrom, hnext, List.cons_append]

/-- The sender `w` has put the given items on the wire. -/
structure Sent (w : ARTPWriter) (items : List (BitVec 32 × List (BitVec 8)))
    (res : ARTPWriter × List (List (BitVec 8))) : Prop where
  writer : res.1 = { w with mSeqNo := w.mSeqNo + BitVec.ofNat 32 res.2.length }
  size : ∀ packet ∈ res.2, packet.length ≤ kMaxPacketSize
  received : ∀ n, receiveAll n res.2 = number n items
  seqNos : res.2.map headerSeqNo = seqNosFrom w.mSeqNo res.2.length

theorem Sent.length {items : List (BitVec 32 × List (BitVec 8))}
    {res : ARTPWriter × List (List (BitVec 8))} (h : Sent w items res) :
    res.2.length = items.length := by
  have hlen := congrArg List.length (h.received 0)
  rwa [length_number, length_receiveAll] at hlen

theorem Sent.nil (w : ARTPWriter) : Sent w [] (w, []) where
  writer := by
    rw [List.length_nil]
    simp
  size := fun _ h => absurd h List.not_mem_nil
  received := fun _ => rfl
  seqNos := rfl

theorem Sent.append {items items' : List (BitVec 32 × List (BitVec 8))}
    {res res' : ARTPWriter × List (List (BitVec 8))} (h : Sent w items res)
    (h' : Sent res.1 items' res') : Sent w (items ++ items') (res'.1, res.2 ++ res'.2) where
  writer := by
    rw [h'.writer, h.writer, List.length_append, BitVec.ofNat_add, BitVec.add_assoc]
  size := by
    intro packet hpacket
    obtain hpacket | hpacket := List.mem_append.mp hpacket
    · exact h.size packet hpacket
    · exact h'.size packet hpacket
  received := by
    intro n
    rw [receiveAll_append, number_append, h.received, h'.received, h.length]
  seqNos := by
    rw [List.map_append, h.seqNos, h'.seqNos, List.length_append, seqNosFrom_add, h.writer]

theorem Sent.packet (w : ARTPWriter) (rtpTime : BitVec 32) (lastPacket : Bool)
    {payload : List (BitVec 8)} (hsize : payload.length + 12 ≤ kMaxPacketSize) :
    Sent w [(rtpTime, payload)]
      ({ w with mSeqNo := w.mSeqNo + 1 }, [w.header rtpTime lastPacket ++ payload]) where
  writer := rfl
  size := by
    intro packet hpacket
    rw [List.mem_singleton.mp hpacket, List.length_append, Nat.add_comm]
    exact hsize
  received := by
    intro n
    rw [receiveAll, receive_header]
    rfl
  seqNos := by
    rw [List.map_singleton, headerSeqNo_header]
    rfl

theorem fragmentSize_le (remaining : Nat) : fragmentSize remaining + 12 + 2 ≤ kMaxPacketSize := by
  rw [fragmentSize]
  split
  · next hlast => exact of_decide_eq_true hlast
  · decide

theorem sendFragments_spec (w : ARTPWriter) (rtpTime : BitVec 32) (nalType : BitVec 8)
    (data : List (BitVec 8)) (firstPacket : Bool)
    (h : firstPacket → isLast data.length = false) :
    ∃ res, w.sendFragments rtpTime nalType data firstPacket = some res ∧
      Sent w ((fragments nalType data firstPacket).map (rtpTime, ·)) res := by
  induction hlen : data.length using Nat.strongRecOn generalizing w data firstPacket with
  | ind len ih =>
  subst hlen
  by_cases hnil : data = []
  · rw [sendFragments, dif_pos hnil, fragments, dif_pos hnil]
    exact ⟨_, rfl, Sent.nil w⟩
  · have hpos := List.length_pos_iff.mpr hnil
    have hsize := fragmentSize_pos hpos
    have hcheck : ¬(firstPacket ∧ isLast data.length) := by
      rintro ⟨hfirst, hlast⟩
      rw [h hfirst] at hlast
      cases hlast
    obtain ⟨res, hsend, hsent⟩ := ih (data.drop (fragmentSize data.length)).length
      (by rw [List.length_drop]; omega) { w with mSeqNo := w.mSeqNo + 1 }
      (data.drop (fragmentSize data.length)) false (fun hfirst => by cases hfirst) rfl
    rw [sendFragments, dif_neg hnil, if_neg hcheck, fragments, dif_neg hnil]
    dsimp only
    rw [hsend]
    refine ⟨_, rfl, ?_⟩
    have hfits : (fuHeader nalType firstPacket (isLast data.length) ++
        data.take (fragmentSize data.length)).length + 12 ≤ kMaxPacketSize := by
      have hle := fragmentSize_le data.length
      have htake := List.length_take_le (fragmentSize data.length) data
      rw [List.length_append]
      simp only [fuHeader, List.length_cons, List.length_nil]
      omega
    have happend := (Sent.packet w rtpTime (isLast data.length) hfits).append hsent
    rw [← List.append_assoc] at happend
    exact happend

/-- The first fragment is never the last, for what does not fit into a packet does not fit into a
fragment either. -/
theorem sendAVCData_spec (w : ARTPWriter) (nal : List (BitVec 8)) (timeUs : BitVec 64) :
    ∃ res, w.sendAVCData nal timeUs = some res ∧
      Sent w ((payloads nal).map (w.rtpTime timeUs, ·)) res := by
  rw [sendAVCData, payloads]
  split
  · next hsize => exact ⟨_, rfl, Sent.packet w _ true hsize⟩
  · next hlong =>
    apply sendFragments_spec
    intro _
    have hnot : ¬((nal.drop 1).length + 12 + 2 ≤ kMaxPacketSize) := by
      rw [List.length_drop]
      simp only [kMaxPacketSize] at hlong ⊢
      omega
    exact decide_eq_false hnot

theorem sendAll_spec (w : ARTPWriter) (nals : List (List (BitVec 8) × BitVec 64)) :
    ∃ res, w.sendAll nals = some res ∧
      Sent w (allPayloads (nals.map fun (nal, timeUs) => (w.rtpTime timeUs, nal))) res := by
  induction nals generalizing w with
  | nil => exact ⟨_, rfl, Sent.nil w⟩
  | cons nal nals ih =>
    obtain ⟨nal, timeUs⟩ := nal
    obtain ⟨res, hsend, hsent⟩ := sendAVCData_spec w nal timeUs
    obtain ⟨res', hsend', hsent'⟩ := ih res.1
    have htime : ∀ timeUs, res.1.rtpTime timeUs = w.rtpTime timeUs := by
      intro timeUs
      rw [hsent.writer]
      rfl
    simp only [htime] at hsent'
    refine ⟨(res'.1, res.2 ++ res'.2), ?_, hsent.append hsent'⟩
    rw [sendAll, hsend]
    show ((res.1.sendAll nals).bind fun rest => some (rest.1, res.2 ++ rest.2)) = _
    rw [hsend']
    rfl

end MediaFramework.Rtsp
