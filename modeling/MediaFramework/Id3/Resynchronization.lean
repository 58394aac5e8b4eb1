import MediaFramework.Id3.FrameRewrite
import Mathlib.Tactic.IntervalCases

/-!
# Tags of version 4

The pass over the frames of a tag leaves each frame with the data it stands for, but for frames of a
group with a data length indicator, and the bytes behind it where they are expected.
-/

namespace MediaFramework.Id3

/-! ### Flags -/

theorem getLsbD_of_supported {flags : BitVec 16} (h : flags &&& 0x000F = 0) {i : Nat} (hi : i < 4) :
    flags.getLsbD i = false := by
  have hbit := congrArg (BitVec.getLsbD · i) h
  simp only [BitVec.getLsbD_and] at hbit
  have hmask : (0x000F : BitVec 16).getLsbD i = true := by
    interval_cases i <;> rfl
  rw [hmask, Bool.and_true] at hbit
  exact hbit.trans BitVec.getLsbD_zero

namespace StoredFrame

variable (stored : StoredFrame)

theorem getLsbD_flags (i : Nat) (hi : i < 2) :
    stored.flags.getLsbD i = if i = 0 then stored.indicator else stored.unsynchronised := by
  have hframe := getLsbD_of_supported stored.frame.supported (by omega : i < 4)
  rw [flags, BitVec.getLsbD_or, BitVec.getLsbD_or, hframe]
  interval_cases i <;> cases stored.unsynchronised <;> cases stored.indicator <;> rfl

theorem flags_indicator : stored.flags &&& 1 ≠ 0 ↔ stored.indicator := by
  have hbit := stored.getLsbD_flags 0 (by decide)
  rw [if_pos rfl] at hbit
  have hand : stored.flags &&& 1 = _ := BitVec.and_twoPow stored.flags 0
  rw [hand, hbit]
  cases stored.indicator <;> decide

theorem flags_unsynchronised : stored.flags &&& 2 ≠ 0 ↔ stored.unsynchronised := by
  have hbit := stored.getLsbD_flags 1 (by decide)
  rw [if_neg (by decide)] at hbit
  have hand : stored.flags &&& 2 = _ := BitVec.and_twoPow stored.flags 1
  rw [hand, hbit]
  cases stored.unsynchronised <;> decide

theorem flags_cleared : stored.flags &&& ~~~1 &&& ~~~2 = stored.frame.flags := by
  apply BitVec.eq_of_getLsbD_eq
  intro i hi
  have hbit := getLsbD_of_supported stored.frame.supported (i := i)
  rw [flags]
  interval_cases i <;> cases stored.unsynchronised <;> cases stored.indicator <;> simp_all

/-- The flags stay if there is nothing to do. -/
theorem flags_kept (h : stored.frame.flags = stored.flags) :
    stored.indicator = false ∧ stored.unsynchronised = false := by
  have hzero := stored.getLsbD_flags 0 (by decide)
  have hone := stored.getLsbD_flags 1 (by decide)
  rw [← h, getLsbD_of_supported stored.frame.supported (by decide)] at hzero hone
  exact ⟨hzero.symm, hone.symm⟩

/-! ### One frame -/

/-- The header of the frame as it is stored. -/
def header : List Byte := stored.frame.id ++ (syncsafe stored.data.length ++ flagBytes stored.flags)

theorem length_header : stored.header.length = 10 := by
  rw [header, List.length_append, List.length_append, stored.frame.id_length]
  rfl

theorem bytes_eq : stored.bytes = stored.header ++ stored.data := by
  rw [bytes, header, List.append_assoc, List.append_assoc]

end StoredFrame

variable (stored : StoredFrame)

/-- The frame with its data as they are stored. -/
def StoredFrame.raw : RawFrame where
  id := stored.frame.id
  size := syncsafe stored.data.length
  flags := stored.flags
  data := stored.data
  id_length := stored.frame.id_length
  id_ne := stored.frame.id_ne
  size_length := length_syncsafe _

namespace StoredFrame

/-- What the pass leaves of the data. -/
def recovered : List Byte := stored.raw.payload

theorem recovered_eq :
    stored.recovered = RawFrame.resync stored.flags (RawFrame.strip stored.flags stored.data) := rfl

theorem resync_flags (data : List Byte) :
    RawFrame.resync stored.flags data = if stored.unsynchronised then desync 0 data else data := by
  rw [RawFrame.resync]
  exact if_congr stored.flags_unsynchronised rfl rfl

theorem strip_flags (data : List Byte) :
    RawFrame.strip stored.flags data = if stored.indicator then data.drop 4 else data := by
  rw [RawFrame.strip]
  exact if_congr stored.flags_indicator rfl rfl

/-- The data behind bytes that are not changed by unsynchronisation. -/
theorem data_of_described {front back : List Byte} (hfront : ∀ byte ∈ front, byte ≠ 0xFF)
    (h : stored.frame.described stored.indicator = front ++ back) :
    ∃ encoded, stored.data = front ++ encoded ∧
      if stored.unsynchronised then Unsynchronised back encoded else encoded = back := by
  have hencodes := stored.encodes
  rw [h] at hencodes
  cases hunsync : stored.unsynchronised with
  | false =>
    rw [hunsync, if_neg Bool.false_ne_true] at hencodes
    exact ⟨back, hencodes, rfl⟩
  | true =>
    rw [hunsync, if_pos rfl] at hencodes
    exact Unsynchronised.of_append hfront hencodes

theorem resync_encoded {back encoded : List Byte}
    (h : if stored.unsynchronised then Unsynchronised back encoded else encoded = back) :
    RawFrame.resync stored.flags encoded = back := by
  rw [stored.resync_flags]
  split_ifs at h ⊢
  · exact h.desync_zero
  · exact h

theorem recovered_of_no_indicator (h : stored.indicator = false) :
    stored.recovered = stored.frame.payload := by
  have hdescribed : stored.frame.described stored.indicator = [] ++ stored.frame.payload := by
    rw [Frame.described, h, if_neg Bool.false_ne_true, List.nil_append, List.nil_append, Frame.rest,
      List.take_append_drop]
  obtain ⟨encoded, hdata, hencoded⟩ := stored.data_of_described (by simp) hdescribed
  rw [recovered_eq, stored.strip_flags, h, if_neg Bool.false_ne_true, hdata]
  exact stored.resync_encoded hencoded

/-- Four bytes are dropped, whatever they are. -/
theorem recovered_of_indicator (h : stored.indicator = true) {front back encoded : List Byte}
    (hfront : front.length = 4) (hdata : stored.data = front ++ encoded)
    (hencoded : if stored.unsynchronised then Unsynchronised back encoded else encoded = back) :
    stored.recovered = back := by
  rw [recovered_eq, stored.strip_flags, h, if_pos rfl, hdata, List.drop_left' hfront]
  exact stored.resync_encoded hencoded

/-- They are the indicator if nothing stands in front of it. -/
theorem recovered_of_not_grouped (hgroup : ¬stored.frame.Grouped) (h : stored.indicator = true) :
    stored.recovered = stored.frame.payload := by
  have hlength : stored.frame.groupLength = 0 := if_neg hgroup
  have hdescribed : stored.frame.described stored.indicator =
      syncsafe stored.frame.rest.length ++ stored.frame.payload := by
    rw [Frame.described, h, if_pos rfl, Frame.rest, hlength]
    rfl
  obtain ⟨encoded, hdata, hencoded⟩ :=
    stored.data_of_described (fun _ => ne_of_mem_syncsafe) hdescribed
  exact stored.recovered_of_indicator h (length_syncsafe _) hdata hencoded

/-- The byte of the group is dropped, and the last byte of the indicator stays: the last two, if a zero
was put behind the byte of the group. -/
theorem recovered_of_grouped (hgroup : stored.frame.Grouped) (h : stored.indicator = true) :
    ∃ a b c d group, syncsafe stored.frame.rest.length = [a, b, c, d] ∧
      stored.frame.payload = group :: stored.frame.rest ∧
      (stored.recovered = d :: stored.frame.rest ∨
        group = 0xFF ∧ stored.recovered = c :: d :: stored.frame.rest) := by
  have hlength : stored.frame.groupLength = 1 := if_pos hgroup
  obtain ⟨group, rest, hpayload⟩ := List.exists_cons_of_ne_nil stored.frame.payload_ne
  have hrest : stored.frame.rest = rest := by
    rw [Frame.rest, hlength, hpayload]
    rfl
  obtain ⟨a, b, c, d, hsize⟩ : ∃ a b c d, syncsafe stored.frame.rest.length = [a, b, c, d] :=
    ⟨_, _, _, _, rfl⟩
  have hne : ∀ byte ∈ [a, b, c, d], byte ≠ 0xFF := by
    rw [← hsize]
    exact fun _ => ne_of_mem_syncsafe
  have hdescribed : stored.frame.described stored.indicator =
      group :: ([a, b, c] ++ (d :: stored.frame.rest)) := by
    rw [Frame.described, h, if_pos rfl, hlength, hsize, hpayload]
    rfl
  refine ⟨a, b, c, d, group, hsize, by rw [hpayload, hrest], ?_⟩
  have hencodes := stored.encodes
  rw [hdescribed] at hencodes
  -- where no zero comes in behind the group, three bytes of the indicator are lost with it
  have hthree : ∀ {encoded : List Byte}, stored.data = group :: encoded →
      Unsynchronised ([a, b, c] ++ (d :: stored.frame.rest)) encoded →
      stored.unsynchronised = true → stored.recovered = d :: stored.frame.rest := by
    intro encoded hdata hencoded hunsync
    obtain ⟨encoded', rfl, hback⟩ :=
      Unsynchronised.of_append (fun byte hbyte => hne byte (List.mem_append_left [d] hbyte)) hencoded
    have hfour : [group, a, b, c].length = 4 := rfl
    exact stored.recovered_of_indicator h hfour hdata (by rwa [hunsync, if_pos rfl])
  cases hunsync : stored.unsynchronised with
  | false =>
    rw [hunsync, if_neg Bool.false_ne_true] at hencodes
    have hfour : [group, a, b, c].length = 4 := rfl
    exact .inl (stored.recovered_of_indicator h hfour hencodes (by rw [hunsync]; rfl))
  | true =>
    rw [hunsync, if_pos rfl] at hencodes
    generalize hdata : stored.data = data at hencodes
    cases hencodes with
    | other _ hencoded => exact .inl (hthree hdata hencoded hunsync)
    | kept _ hencoded => exact .inl (hthree hdata hencoded hunsync)
    -- the zero behind a group of 255 is one of the four bytes that are taken off
    | inserted hencoded =>
      have hfront : ∀ byte ∈ [a, b], byte ≠ 0xFF := fun byte hbyte =>
        hne byte (List.mem_append_left [c, d] hbyte)
      obtain ⟨encoded', rfl, hback⟩ := Unsynchronised.of_append hfront hencoded
      have hfour : [0xFF, 0, a, b].length = 4 := rfl
      exact .inr ⟨rfl, stored.recovered_of_indicator h hfour hdata (by rwa [hunsync, if_pos rfl])⟩

/-- The byte of a group is the one that stays of the data length indicator. -/
def GroupKept : Prop :=
  stored.frame.Grouped → stored.indicator = true →
    stored.frame.payload.head? = (syncsafe stored.frame.rest.length).getLast?

instance : Decidable stored.GroupKept := inferInstanceAs (Decidable (_ → _ → _))

theorem recovered_eq_iff : stored.recovered = stored.frame.payload ↔ stored.GroupKept := by
  rw [GroupKept]
  by_cases hgroup : stored.frame.Grouped
  · cases h : stored.indicator with
    | false =>
      exact iff_of_true (stored.recovered_of_no_indicator h) fun _ h => absurd h Bool.false_ne_true
    | true =>
      obtain ⟨a, b, c, d, group, hsize, hpayload, hrecovered⟩ := stored.recovered_of_grouped hgroup h
      have hlast : [a, b, c, d].getLast? = some d := rfl
      rw [hsize, hpayload, hlast, List.head?_cons]
      obtain hrecovered | ⟨rfl, hrecovered⟩ := hrecovered
      · simp [hrecovered, hgroup, eq_comm]
      · -- one byte too many
        have hd : d ≠ 0xFF := by
          have hmem : d ∈ syncsafe stored.frame.rest.length := by simp [hsize]
          exact ne_of_mem_syncsafe hmem
        refine iff_of_false ?_ fun hkept => hd (Option.some.inj (hkept hgroup rfl)).symm
        intro hsame
        have hlength := congrArg List.length (hrecovered.symm.trans hsame)
        simp at hlength
  · refine iff_of_true ?_ fun h => absurd h hgroup
    cases h : stored.indicator with
    | false => exact stored.recovered_of_no_indicator h
    | true => exact stored.recovered_of_not_grouped hgroup h

/-- The data have room for the indicator. -/
theorem length_data (h : stored.indicator = true) : 4 ≤ stored.data.length := by
  have hdescribed : 4 ≤ (stored.frame.described stored.indicator).length := by
    rw [Frame.described, h, if_pos rfl, List.length_append, List.length_append, length_syncsafe]
    omega
  have hencodes := stored.encodes
  split at hencodes
  · exact hdescribed.trans hencodes.length_le
  · rwa [hencodes]

theorem recovered_ne : stored.recovered ≠ [] := by
  by_cases hgroup : stored.frame.Grouped ∧ stored.indicator = true
  · obtain ⟨a, b, c, d, group, _, _, hrecovered⟩ := stored.recovered_of_grouped hgroup.1 hgroup.2
    obtain hrecovered | ⟨_, hrecovered⟩ := hrecovered <;> simp [hrecovered]
  · have hkept : stored.GroupKept := fun h₁ h₂ => absurd ⟨h₁, h₂⟩ hgroup
    rw [stored.recovered_eq_iff.mpr hkept]
    exact stored.frame.payload_ne

/-- The frame that an iterator finds. -/
def returned : Frame .ID3_V2_4 where
  id := stored.frame.id
  flags := stored.frame.flags
  payload := stored.recovered
  id_length := stored.frame.id_length
  id_ne := stored.frame.id_ne
  payload_ne := stored.recovered_ne
  supported := stored.frame.supported

/-- The header gives the new size and no flag about the data. -/
theorem bytes_rewrite_raw : (stored.raw.rewrite false).bytes = stored.returned.bytes := by
  have hsize : (stored.raw.rewrite false).size = syncsafe stored.recovered.length := by
    by_cases hchanged : stored.raw.Changed false
    · exact if_pos hchanged
    · -- flags that stay say that the data are stored as they are
      have hflags : stored.flags &&& ~~~1 &&& ~~~2 = stored.flags :=
        not_not.mp (not_or.mp hchanged).1
      rw [stored.flags_cleared] at hflags
      obtain ⟨hindicator, hunsync⟩ := stored.flags_kept hflags
      have hdata : stored.recovered = stored.data := by
        rw [recovered_eq, stored.strip_flags, stored.resync_flags, hindicator, hunsync,
          if_neg Bool.false_ne_true, if_neg Bool.false_ne_true]
      have hkept : (stored.raw.rewrite false).size = syncsafe stored.data.length := if_neg hchanged
      rw [hkept, hdata]
  show stored.frame.id ++ ((stored.raw.rewrite false).size ++
    (flagBytes (stored.flags &&& ~~~1 &&& ~~~2) ++ stored.recovered)) = _
  rw [hsize, stored.flags_cleared]
  rfl

theorem legal_raw (hsize : stored.data.length < 2 ^ 28) : stored.raw.Legal false := by
  refine ⟨?_, ?_⟩
  · rw [if_neg Bool.false_ne_true]
    exact parse_syncsafe hsize
  · intro hflag
    exact stored.length_data (stored.flags_indicator.mp hflag)

end StoredFrame

/-- One pass of the loop. -/
theorem removeUnsynchronizationAt_stored (front rest junk : List Byte)
    (hsize : stored.data.length < 2 ^ 28) {oldSize : Nat}
    (hold : (front ++ (stored.bytes ++ (rest ++ junk))).length = oldSize) :
    ∃ junk', removeUnsynchronizationAt false oldSize (front ++ (stored.bytes ++ (rest ++ junk)))
        (front ++ (stored.bytes ++ rest)).length front.length =
      some (front ++ (stored.returned.bytes ++ (rest ++ junk')),
        (front ++ (stored.returned.bytes ++ rest)).length, (front ++ stored.returned.bytes).length) ∧
      (front ++ (stored.returned.bytes ++ (rest ++ junk'))).length = oldSize := by
  have hlegal := RawFrame.removeUnsynchronizationAt_legal rest junk (stored.legal_raw hsize) hold
  rw [stored.bytes_rewrite_raw] at hlegal
  exact hlegal

/-! ### All frames -/

/-- The frames as an iterator expects them. -/
def plainBytes (stored : StoredFrame) : List Byte := stored.returned.bytes

theorem slice_padding {front back : List Byte} {n k : Nat} (hk : k ≤ n) :
    Ring.slice (front ++ (padding n ++ back)) front.length k = padding k := by
  have hsplit : padding n = padding k ++ padding (n - k) := by
    rw [padding, padding, padding, List.replicate_append_replicate, Nat.add_sub_cancel' hk]
  rw [hsplit, List.append_assoc]
  exact Ring.slice_append rfl List.length_replicate

theorem removeUnsynchronizationV2_4From_spec {frames : List StoredFrame} {passes oldSize n : Nat}
    (hpasses : frames.length < passes) (front junk : List Byte)
    (hold : (front ++ (frames.flatMap StoredFrame.bytes ++ (padding n ++ junk))).length = oldSize)
    (hsmall : oldSize < 2 ^ 28) :
    ∃ junk', removeUnsynchronizationV2_4From false oldSize passes
        (front ++ (frames.flatMap StoredFrame.bytes ++ (padding n ++ junk)))
        (front ++ (frames.flatMap StoredFrame.bytes ++ padding n)).length front.length =
      some (front ++ (frames.flatMap plainBytes ++ (padding n ++ junk')),
        (front ++ (frames.flatMap plainBytes ++ padding n)).length) ∧
      (front ++ (frames.flatMap plainBytes ++ (padding n ++ junk'))).length = oldSize := by
  obtain ⟨passes, rfl⟩ := Nat.exists_eq_add_one_of_ne_zero (Nat.ne_zero_of_lt hpasses)
  induction frames generalizing front junk passes with
  | nil =>
    refine ⟨junk, ?_, hold⟩
    rw [List.flatMap_nil, List.flatMap_nil, List.nil_append, List.nil_append,
      removeUnsynchronizationV2_4From]
    split
    · rfl
    · next hroom =>
      -- the loop goes on in the padding, where there is no id
      have hten : 10 ≤ n := by
        rw [not_not, List.length_append, padding, List.length_replicate] at hroom
        omega
      rw [slice_padding (by omega), if_pos (by rfl)]
  | cons stored frames ih =>
    have hheader := stored.length_header
    have hid : stored.frame.id.length = 4 := stored.frame.id_length
    have hshape : ∀ back, front ++ ((stored :: frames).flatMap StoredFrame.bytes ++ back) =
        front ++ (stored.bytes ++ (frames.flatMap StoredFrame.bytes ++ back)) := by
      intro back
      rw [List.flatMap_cons, List.append_assoc]
    have hshape' : ∀ back, front ++ ((stored :: frames).flatMap plainBytes ++ back) =
        (front ++ stored.returned.bytes) ++ (frames.flatMap plainBytes ++ back) := by
      intro back
      rw [List.flatMap_cons, List.append_assoc, List.append_assoc]
      rfl
    simp only [hshape, hshape'] at hold ⊢
    have hsize : stored.data.length < 2 ^ 28 := by
      rw [stored.bytes_eq] at hold
      simp only [List.length_append] at hold
      omega
    have hroom : ¬¬((front ++ (stored.bytes ++ (frames.flatMap StoredFrame.bytes ++ padding n))).length ≥
        10 ∧ front.length ≤
          (front ++ (stored.bytes ++ (frames.flatMap StoredFrame.bytes ++ padding n))).length - 10) := by
      rw [not_not, stored.bytes_eq]
      simp only [List.length_append, hheader]
      omega
    have hslice : Ring.slice (front ++ (stored.bytes ++ (frames.flatMap StoredFrame.bytes ++
        (padding n ++ junk)))) front.length 4 = stored.frame.id := by
      rw [StoredFrame.bytes, List.append_assoc]
      exact Ring.slice_append rfl hid
    have hold' : (front ++ (stored.bytes ++ ((frames.flatMap StoredFrame.bytes ++ padding n) ++
        junk))).length = oldSize := by
      rw [List.append_assoc (frames.flatMap StoredFrame.bytes), hold]
    obtain ⟨junk₁, hpass, hold₁⟩ := removeUnsynchronizationAt_stored stored front
      (frames.flatMap StoredFrame.bytes ++ padding n) junk hsize hold'
    obtain ⟨passes, rfl⟩ := Nat.exists_eq_add_one_of_ne_zero (n := passes)
      (Nat.ne_zero_of_lt (Nat.lt_of_succ_lt_succ hpasses))
    have hassoc : ∀ tail, front ++ (stored.returned.bytes ++ ((frames.flatMap StoredFrame.bytes ++
        padding n) ++ tail)) = (front ++ stored.returned.bytes) ++ (frames.flatMap StoredFrame.bytes ++
        (padding n ++ tail)) := by
      intro tail
      simp only [List.append_assoc]
    rw [hassoc] at hold₁
    obtain ⟨junk₂, hrest, hold₂⟩ := ih _ _ hold₁ passes (Nat.lt_of_succ_lt_succ hpasses)
    refine ⟨junk₂, ?_, hold₂⟩
    have hne : stored.frame.id ≠ [0, 0, 0, 0] := stored.frame.id_ne
    rw [List.append_assoc (frames.flatMap StoredFrame.bytes)] at hpass
    rw [removeUnsynchronizationV2_4From, if_neg hroom, hslice, if_neg hne, hpass]
    dsimp only
    rw [hassoc, ← hrest]
    simp only [List.append_assoc]

theorem length_frames_le (frames : List StoredFrame) :
    frames.length ≤ (frames.flatMap StoredFrame.bytes).length := by
  induction frames with
  | nil => exact Nat.le_refl _
  | cons stored frames ih =>
    rw [List.flatMap_cons, List.length_append, List.length_cons, stored.bytes_eq, List.length_append,
      stored.length_header]
    omega

/-- Each frame is as it was before unsynchronisation, with the padding behind the last. -/
theorem removeUnsynchronizationV2_4_spec (frames : List StoredFrame) (n : Nat)
    (hsmall : (frames.flatMap StoredFrame.bytes ++ padding n).length < 2 ^ 28) :
    ∃ junk, removeUnsynchronizationV2_4 false (frames.flatMap StoredFrame.bytes ++ padding n)
        (frames.flatMap StoredFrame.bytes ++ padding n).length =
      some (frames.flatMap plainBytes ++ (padding n ++ junk),
        (frames.flatMap plainBytes ++ padding n).length) ∧
      (frames.flatMap plainBytes ++ padding n).length ≤
        (frames.flatMap StoredFrame.bytes ++ padding n).length := by
  have hle := length_frames_le frames
  have hpasses : frames.length < (frames.flatMap StoredFrame.bytes ++ padding n).length + 1 := by
    rw [List.length_append]
    omega
  obtain ⟨junk, hrun, hlength⟩ := removeUnsynchronizationV2_4From_spec (n := n) hpasses [] []
    (by rw [List.nil_append, List.append_nil]) hsmall
  rw [List.nil_append, List.nil_append, List.nil_append, List.append_nil, List.nil_append,
    List.length_nil] at hrun
  rw [List.nil_append, ← List.append_assoc, List.length_append] at hlength
  refine ⟨padding junk.length, ?_, by omega⟩
  rw [removeUnsynchronizationV2_4]
  dsimp only
  rw [hrun]
  show some (Ring.poke (_ ++ (_ ++ junk)) _ _, _) = _
  have hrest : (frames.flatMap StoredFrame.bytes ++ padding n).length -
      (frames.flatMap plainBytes ++ padding n).length = junk.length := by
    omega
  have hpoke : Ring.poke ((frames.flatMap plainBytes ++ padding n) ++ (junk ++ [])) _
      (padding junk.length) = _ :=
    Ring.poke_between rfl List.length_replicate.symm
  rw [List.append_nil, List.append_nil] at hpoke
  rw [hrest, ← List.append_assoc, ← padding, hpoke, List.append_assoc]

end MediaFramework.Id3
