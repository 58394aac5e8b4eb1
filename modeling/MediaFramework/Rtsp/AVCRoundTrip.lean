import MediaFramework.Rtsp.AVCDelivery

/-!
# From the sender to the access units

NAL units that go through `sendAVCData` come out of the assembler again, grouped by their RTP
times. A group is handed on when a packet of another time has come. The end of the stream hands
nothing on, so the last group stays behind.
-/

namespace MediaFramework.Rtsp

open ARTPWriter AAVCAssembler

theorem nodup_number {n : Nat} {items : List (BitVec 32 × List (BitVec 8))}
    (hrange : n + items.length ≤ 2^32) : (number n items).Nodup := by
  apply (pairwise_number hrange).imp
  rintro b b' hlt rfl
  exact Nat.lt_irrefl _ hlt

/-- All packets of the NAL units have come, the first one first. -/
theorem deliver_spec {nals : List (BitVec 32 × List (BitVec 8))} {first : Nat}
    {arrivals : List ABuffer} (hsend : ∀ u ∈ nals, Sendable u.2)
    (hrange : first + (allPayloads nals).length ≤ 2^32)
    (hperm : arrivals.Perm (number first (allPayloads nals)))
    (hhead : arrivals.head? = (number first (allPayloads nals)).head?) :
    (deliver {} [] arrivals).2 = [] ∧
      (deliver {} [] arrivals).1.mAccessUnitDamaged = false ∧
      (deliver {} [] arrivals).1.posted.map AccessUnit.view =
        (nals.splitBy sameTime).dropLast.map accessUnitOf ∧
      (deliver {} [] arrivals).1.mNALUnits.map ABuffer.unit =
        (nals.splitBy sameTime).getLastD [] := by
  cases hnumber : number first (allPayloads nals) with
  | nil =>
    have hnals : nals = [] := by
      cases nals with
      | nil => rfl
      | cons u nals =>
        have hlen := congrArg List.length hnumber
        rw [length_number, allPayloads_cons, List.length_append, List.length_map,
          List.length_nil] at hlen
        have hpos := List.length_pos_iff.mpr (payloads_ne_nil u.2)
        omega
    rw [hnumber] at hperm
    rw [hperm.eq_nil, hnals]
    exact ⟨rfl, rfl, rfl, rfl⟩
  | cons b buffers =>
    have hnodup := nodup_number hrange
    rw [hnumber] at hhead hperm
    obtain ⟨buffers', rfl⟩ : ∃ buffers', arrivals = b :: buffers' := by
      cases arrivals with
      | nil => cases hhead
      | cons b' buffers' =>
        obtain rfl := Option.some.inj hhead
        exact ⟨buffers', rfl⟩
    have hstart := Delivered.start hnumber hsend hrange
    have hmem : ∀ b' ∈ b :: buffers', b' ∈ number first (allPayloads nals) := by
      intro b' hb'
      rw [hnumber]
      exact hperm.subset hb'
    have hrun := Delivered.run hsend hrange buffers' hstart
      (fun b' hb' => hmem b' (List.mem_cons_of_mem _ hb')) (by
        rw [hnumber] at hnodup
        exact (List.perm_append_singleton b buffers').nodup_iff.mpr (hperm.nodup_iff.mpr hnodup))
    obtain ⟨taken, current, hsplit, hqueue, hassembled⟩ := hrun.complete (by
      intro b' hb'
      rw [hnumber] at hb'
      have hb' := hperm.symm.subset hb'
      simpa [or_comm] using hb')
    subst hsplit
    show (deliver _ _ buffers').2 = [] ∧ _
    refine ⟨hqueue, hassembled.undamaged, ?_, ?_⟩
    · by_cases hcurrent : current = []
      · have hposted := hassembled.posted
        rw [hassembled.waiting hcurrent] at hposted
        rw [hcurrent, hassembled.waiting hcurrent]
        exact hposted
      · rw [hassembled.splitBy hcurrent, List.dropLast_concat]
        exact hassembled.posted
    · by_cases hcurrent : current = []
      · have hunits := hassembled.units
        rw [hcurrent] at hunits
        rw [hcurrent, hassembled.waiting hcurrent]
        exact hunits
      · rw [hassembled.splitBy hcurrent, List.getLastD_concat]
        exact hassembled.units

/-- The packets of any NAL units, delivered in any order with the first packet first, make exactly
these units again. All groups but the last are posted, and the last one waits. -/
theorem avc_round_trip (w : ARTPWriter) (nals : List (List (BitVec 8) × BitVec 64))
    (hsend : ∀ nal ∈ nals, Sendable nal.1) :
    ∃ w' packets, w.sendAll nals = some (w', packets) ∧
      (∀ packet ∈ packets, packet.length ≤ kMaxPacketSize) ∧
      packets.map headerSeqNo = seqNosFrom w.mSeqNo packets.length ∧
      ∀ first arrivals, first + packets.length ≤ 2^32 →
        arrivals.Perm (receiveAll first packets) →
        arrivals.head? = (receiveAll first packets).head? →
        let groups := (nals.map fun (nal, timeUs) => (w.rtpTime timeUs, nal)).splitBy sameTime
        let (a, queue) := deliver {} [] arrivals
        queue = [] ∧ a.mAccessUnitDamaged = false ∧
          a.posted.map AccessUnit.view = groups.dropLast.map accessUnitOf ∧
          a.mNALUnits.map ABuffer.unit = groups.getLastD [] := by
  obtain ⟨⟨w', packets⟩, hsendAll, hsent⟩ := sendAll_spec w nals
  refine ⟨w', packets, hsendAll, hsent.size, hsent.seqNos, ?_⟩
  intro first arrivals hrange hperm hhead
  rw [hsent.received] at hperm hhead
  rw [hsent.length] at hrange
  refine deliver_spec ?_ hrange hperm hhead
  intro u hu
  obtain ⟨nal, hnal, rfl⟩ := List.mem_map.mp hu
  exact hsend nal hnal

/-- Three NAL units, one of them in two fragments that come in the wrong order. -/
theorem avc_round_trip_fragmented :
    ∃ packets, ((⟨0xfffe, 0, 1⟩ : ARTPWriter).sendAll
        [([0x67, 0x42], 0), (0x65 :: List.replicate 1600 0xff, 0), ([0x41, 0x9a], 100)]).map
          Prod.snd = some packets ∧ packets.length = 4 ∧
      (deliver {} [] ((receiveAll 0xfffe packets).take 1 ++
        ((receiveAll 0xfffe packets).drop 1).reverse)).1.posted.map AccessUnit.view =
          [(0, [0, 0, 0, 1, 0x67, 0x42] ++ [0, 0, 0, 1, 0x65] ++ List.replicate 1600 0xff,
            false)] := by
  have hcount : (((⟨0xfffe, 0, 1⟩ : ARTPWriter).sendAll
      [([0x67, 0x42], 0), (0x65 :: List.replicate 1600 0xff, 0), ([0x41, 0x9a], 100)]).map
        fun res => res.2.length) = some 4 := by decide +kernel
  obtain ⟨w', packets, hsend, -, -, hdeliver⟩ := avc_round_trip ⟨0xfffe, 0, 1⟩
    [([0x67, 0x42], 0), (0x65 :: List.replicate 1600 0xff, 0), ([0x41, 0x9a], 100)]
    (by decide +kernel)
  rw [hsend] at hcount ⊢
  have hlen : packets.length = 4 := Option.some.inj hcount
  refine ⟨packets, rfl, hlen, ?_⟩
  have hperm : ((receiveAll 0xfffe packets).take 1 ++
      ((receiveAll 0xfffe packets).drop 1).reverse).Perm (receiveAll 0xfffe packets) := by
    have h := (List.reverse_perm ((receiveAll 0xfffe packets).drop 1)).append_left
      ((receiveAll 0xfffe packets).take 1)
    rwa [List.take_append_drop] at h
  have hhead : ((receiveAll 0xfffe packets).take 1 ++
      ((receiveAll 0xfffe packets).drop 1).reverse).head? = (receiveAll 0xfffe packets).head? := by
    cases packets with
    | nil => cases hlen
    | cons packet packets => rfl
  rw [(hdeliver 0xfffe _ (by rw [hlen]; decide) hperm hhead).2.2.1]
  decide +kernel

/-- A single NAL unit is sent and received, and no access unit is posted. -/
theorem last_access_unit_not_posted :
    Sendable [0x65] ∧
      ∃ packets, ((⟨0, 0, 0⟩ : ARTPWriter).sendAll [([0x65], 0)]).map Prod.snd = some packets ∧
        (deliver {} [] (receiveAll 0 packets)).1.posted = [] ∧
        ([((⟨0, 0, 0⟩ : ARTPWriter).rtpTime 0, [0x65])].splitBy sameTime).map accessUnitOf ≠ [] := by
  exact ⟨by decide, [(⟨0, 0, 0⟩ : ARTPWriter).header 0 true ++ [0x65]], by decide +kernel,
    by decide +kernel, by decide +kernel⟩

end MediaFramework.Rtsp
