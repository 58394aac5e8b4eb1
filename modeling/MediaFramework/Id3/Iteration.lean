import MediaFramework.Id3.Resynchronization

/-!
# Iterating over frames

An iterator finds the frames that stand one behind the other, and is done in the zeros behind them.
-/

namespace MediaFramework.Id3

open Ebml (bigEndian number)

variable {v : Version} {id3 : ID3} {front back : List Byte}

theorem length_sizeBytes (v : Version) (n : Nat) :
    (v.sizeBytes n).length = v.headerLength - v.idLength - (if v = .ID3_V2_2 then 0 else 2) := by
  cases v <;> rfl

theorem length_flagsField (v : Version) (flags : BitVec 16) :
    (v.flagsField flags).length = if v = .ID3_V2_2 then 0 else 2 := by
  cases v <;> rfl

namespace Frame

variable (frame : Frame v)

theorem length_bytes : frame.bytes.length = v.headerLength + frame.payload.length := by
  rw [bytes, List.length_append, List.length_append, List.length_append, frame.id_length,
    length_sizeBytes, length_flagsField]
  cases v with
  | ID3_V2_2 => show 3 + (3 + (0 + _)) = 6 + _; omega
  | ID3_V2_3 => show 4 + (4 + (2 + _)) = 10 + _; omega
  | ID3_V2_4 => show 4 + (4 + (2 + _)) = 10 + _; omega

theorem length_payload_pos : 0 < frame.payload.length := List.length_pos_iff.mpr frame.payload_ne

theorem slice_id (front back : List Byte) :
    Ring.slice (front ++ (frame.bytes ++ back)) front.length v.idLength = frame.id := by
  rw [bytes, List.append_assoc]
  exact Ring.slice_append rfl frame.id_length

theorem slice_size (front back : List Byte) :
    Ring.slice (front ++ (frame.bytes ++ back)) (front.length + v.idLength)
      (v.sizeBytes frame.payload.length).length = v.sizeBytes frame.payload.length := by
  have hshape : front ++ (frame.bytes ++ back) = (front ++ frame.id) ++
      (v.sizeBytes frame.payload.length ++ (v.flagsField frame.flags ++ (frame.payload ++ back))) := by
    rw [bytes]
    simp only [List.append_assoc]
  rw [hshape]
  exact Ring.slice_append (by rw [List.length_append, frame.id_length]) rfl

theorem slice_payload (front back : List Byte) :
    Ring.slice (front ++ (frame.bytes ++ back)) (front.length + v.headerLength) frame.payload.length =
      frame.payload := by
  have hlength := frame.length_bytes
  have hshape : front ++ (frame.bytes ++ back) =
      (front ++ (frame.id ++ (v.sizeBytes frame.payload.length ++ v.flagsField frame.flags))) ++
        (frame.payload ++ back) := by
    rw [bytes]
    simp only [List.append_assoc]
  rw [hshape]
  refine Ring.slice_append ?_ rfl
  rw [bytes] at hlength
  simp only [List.length_append] at hlength ⊢
  omega

end Frame

theorem lookV2_2_frame (frame : Frame .ID3_V2_2)
    (hdata : id3.mData = front ++ (frame.bytes ++ back))
    (hsize : (front ++ frame.bytes).length ≤ id3.mSize) (hsmall : id3.mSize ≤ kMaxMetadataSize) :
    id3.lookV2_2 front.length = .frame frame.bytes.length := by
  have hlength : frame.bytes.length = 6 + frame.payload.length := frame.length_bytes
  have hpos := frame.length_payload_pos
  have hid : Ring.slice id3.mData front.length 3 = frame.id := hdata ▸ frame.slice_id front back
  have hne : frame.id ≠ [0, 0, 0] := frame.id_ne
  have hmax : kMaxMetadataSize = 3145728 := rfl
  have hword : SIZE_MAX = 18446744073709551615 := rfl
  rw [List.length_append] at hsize
  have hnumber : number (Ring.slice id3.mData (front.length + 3) 3) = frame.payload.length := by
    have hslice : Ring.slice id3.mData (front.length + 3) 3 = bigEndian 3 frame.payload.length :=
      hdata ▸ frame.slice_size front back
    rw [hslice, Ebml.number_bigEndian, Nat.mod_eq_of_lt (by omega)]
  rw [ID3.lookV2_2, if_neg (by omega), hid, if_neg hne, hnumber, if_neg (by omega)]
  dsimp only
  rw [if_neg (by omega), if_neg (by omega), hlength, Nat.add_comm]

/-- The flags behind the size. -/
theorem Frame.slice_flags (hv : v ≠ .ID3_V2_2) (frame : Frame v) (front back : List Byte) :
    Ring.slice (front ++ (frame.bytes ++ back)) (front.length + 8) 2 = flagBytes frame.flags := by
  have hfield : v.flagsField frame.flags = flagBytes frame.flags := by
    cases v with
    | ID3_V2_2 => exact absurd rfl hv
    | ID3_V2_3 => rfl
    | ID3_V2_4 => rfl
  have hbefore : v.idLength + (v.sizeBytes frame.payload.length).length = 8 := by
    cases v with
    | ID3_V2_2 => exact absurd rfl hv
    | ID3_V2_3 => rfl
    | ID3_V2_4 => rfl
  have hshape : front ++ (frame.bytes ++ back) =
      (front ++ (frame.id ++ v.sizeBytes frame.payload.length)) ++
        (v.flagsField frame.flags ++ (frame.payload ++ back)) := by
    rw [bytes]
    simp only [List.append_assoc]
  rw [hshape, hfield]
  refine Ring.slice_append ?_ rfl
  rw [List.length_append, List.length_append, frame.id_length, hbefore]

/-- Flags that are not among those set cannot be found. -/
theorem and_eq_zero {flags mask part : BitVec 16} (h : flags &&& mask = 0) (hpart : mask &&& part = part) :
    flags &&& part = 0 := by
  rw [← hpart, ← BitVec.and_assoc, h]
  exact BitVec.zero_and

theorem lookV2_3_frame (hversion : id3.mVersion = v) (hv : v ≠ .ID3_V2_2) (frame : Frame v)
    (hdata : id3.mData = front ++ (frame.bytes ++ back))
    (hsize : (front ++ frame.bytes).length ≤ id3.mSize) (hsmall : id3.mSize ≤ kMaxMetadataSize) :
    id3.lookV2_3 front.length = .frame frame.bytes.length := by
  have hlength := frame.length_bytes
  have hpos := frame.length_payload_pos
  have hid := hdata ▸ frame.slice_id front back
  have hfield := hdata ▸ frame.slice_size front back
  have hzero := frame.id_ne
  have hmax : kMaxMetadataSize = 3145728 := rfl
  have hword : SIZE_MAX = 18446744073709551615 := rfl
  have hheader : v.headerLength = 10 := by
    cases v with
    | ID3_V2_2 => exact absurd rfl hv
    | ID3_V2_3 => rfl
    | ID3_V2_4 => rfl
  have hidLength : v.idLength = 4 := by
    cases v with
    | ID3_V2_2 => exact absurd rfl hv
    | ID3_V2_3 => rfl
    | ID3_V2_4 => rfl
  rw [hidLength] at hid hzero hfield
  have hne : frame.id ≠ [0, 0, 0, 0] := hzero
  rw [hheader] at hlength
  rw [List.length_append] at hsize
  have hbase : (if id3.mVersion = .ID3_V2_4 then
      ParseSyncsafeInteger (Ring.slice id3.mData (front.length + 4) 4)
      else some (U32_AT id3.mData (front.length + 4))) = some frame.payload.length := by
    cases v with
    | ID3_V2_2 => exact absurd rfl hv
    | ID3_V2_3 =>
      have hslice : Ring.slice id3.mData (front.length + 4) 4 = bigEndian 4 frame.payload.length :=
        hfield
      rw [hversion, if_neg (by decide), U32_AT, hslice, Ebml.number_bigEndian,
        Nat.mod_eq_of_lt (by omega)]
    | ID3_V2_4 =>
      have hslice : Ring.slice id3.mData (front.length + 4) 4 = syncsafe frame.payload.length :=
        hfield
      rw [hversion, if_pos rfl, hslice, parse_syncsafe (by omega)]
  have hflags : U16_AT id3.mData (front.length + 8) = frame.flags := by
    rw [U16_AT, hdata, frame.slice_flags hv, number_flagBytes]
  have hsupported : ¬((id3.mVersion = .ID3_V2_4 ∧ frame.flags &&& 0x000C ≠ 0) ∨
      (id3.mVersion = .ID3_V2_3 ∧ frame.flags &&& 0x00C0 ≠ 0)) := by
    rw [hversion]
    rintro (⟨rfl, hflag⟩ | ⟨rfl, hflag⟩)
    · exact hflag (and_eq_zero frame.supported rfl)
    · exact hflag frame.supported
  rw [ID3.lookV2_3, if_neg (by omega), hid, if_neg hne]
  dsimp only
  rw [hbase]
  dsimp only
  rw [if_neg (by omega), if_neg (by omega), if_neg (by omega), if_neg (by omega), hflags,
    if_neg hsupported, hlength]

/-- A frame is found where it stands. -/
theorem look_frame (hversion : id3.mVersion = v) (frame : Frame v)
    (hdata : id3.mData = front ++ (frame.bytes ++ back))
    (hsize : (front ++ frame.bytes).length ≤ id3.mSize) (hsmall : id3.mSize ≤ kMaxMetadataSize) :
    id3.look front.length = .frame frame.bytes.length := by
  rw [ID3.look]
  split
  · next htwo =>
    obtain rfl : v = .ID3_V2_2 := hversion.symm.trans htwo
    exact lookV2_2_frame frame hdata hsize hsmall
  · next htwo => exact lookV2_3_frame hversion (hversion ▸ htwo) frame hdata hsize hsmall

/-- There is no frame in the padding. -/
theorem look_padding {n : Nat} (hdata : id3.mData = front ++ (padding n ++ back))
    (hsize : id3.mSize = (front ++ padding n).length) : id3.look front.length = .nothing := by
  rw [List.length_append, padding, List.length_replicate] at hsize
  rw [ID3.look]
  split
  · rw [ID3.lookV2_2]
    split
    · rfl
    · have hzero : Ring.slice id3.mData front.length 3 = [0, 0, 0] := by
        rw [hdata, slice_padding (by omega)]
        rfl
      rw [if_pos hzero]
  · rw [ID3.lookV2_3]
    split
    · rfl
    · have hzero : Ring.slice id3.mData front.length 4 = [0, 0, 0, 0] := by
        rw [hdata, slice_padding (by omega)]
        rfl
      rw [if_pos hzero]

/-! ### The end -/

/-- What is found takes some bytes and ends in the tag. -/
theorem look_bounds {mOffset mFrameSize : Nat}
    (h : id3.look mOffset = .frame mFrameSize ∨ id3.look mOffset = .unsupported mFrameSize) :
    0 < mFrameSize ∧ mOffset + mFrameSize ≤ id3.mSize := by
  rw [ID3.look] at h
  split at h
  · rw [ID3.lookV2_2] at h
    dsimp only at h
    split_ifs at h <;> rcases h with h | h <;> cases h
    omega
  · rw [ID3.lookV2_3] at h
    dsimp only at h
    split at h
    · rcases h with h | h <;> cases h
    split at h
    · rcases h with h | h <;> cases h
    split at h
    · rcases h with h | h <;> cases h
    · split_ifs at h <;> rcases h with h | h <;> cases h <;> omega

theorem look_end {mOffset : Nat} (h : id3.mSize < mOffset) : id3.look mOffset = .nothing := by
  cases hlook : id3.look mOffset with
  | nothing => rfl
  | unsupported mFrameSize =>
    have hbounds := look_bounds (.inr hlook)
    omega
  | frame mFrameSize =>
    have hbounds := look_bounds (.inl hlook)
    omega

/-- An iterator stands on a frame that ends in the tag, or is done. -/
theorem findFrameFrom_bounds (mID : Option (List Byte)) {passes mOffset : Nat} {it : Iterator}
    (h : id3.findFrameFrom mID passes mOffset = it) :
    it.mFrameData = none ∨
      mOffset ≤ it.mOffset ∧ 0 < it.mFrameSize ∧ it.mOffset + it.mFrameSize ≤ id3.mSize := by
  induction passes generalizing mOffset with
  | zero =>
    subst h
    exact .inl rfl
  | succ passes ih =>
    rw [ID3.findFrameFrom] at h
    cases hlook : id3.look mOffset with
    | nothing =>
      rw [hlook] at h
      subst h
      exact .inl rfl
    | unsupported mFrameSize =>
      rw [hlook] at h
      exact (ih h).imp_right fun hrest => ⟨Nat.le_of_add_right_le hrest.1, hrest.2⟩
    | frame mFrameSize =>
      rw [hlook] at h
      dsimp only at h
      split at h
      · subst h
        exact .inr ⟨Nat.le_refl _, look_bounds (.inl hlook)⟩
      · exact (ih h).imp_right fun hrest => ⟨Nat.le_of_add_right_le hrest.1, hrest.2⟩

/-- The loop ends after as many passes as the tag has bytes. -/
theorem findFrameFrom_passes (mID : Option (List Byte)) {passes mOffset : Nat}
    (h : id3.mSize < mOffset + passes) :
    id3.findFrameFrom mID (passes + 1) mOffset = id3.findFrameFrom mID passes mOffset := by
  induction passes generalizing mOffset with
  | zero =>
    have hend : id3.look mOffset = .nothing := look_end h
    rw [ID3.findFrameFrom.eq_2 id3 mID mOffset 0, hend]
    rfl
  | succ passes ih =>
    rw [ID3.findFrameFrom, ID3.findFrameFrom.eq_2 id3 mID mOffset passes]
    cases hlook : id3.look mOffset with
    | nothing => rfl
    | unsupported mFrameSize =>
      have hbounds := look_bounds (.inr hlook)
      exact ih (by omega)
    | frame mFrameSize =>
      have hbounds := look_bounds (.inl hlook)
      dsimp only
      rw [ih (by omega)]

theorem framesFrom_done {calls : Nat} {it : Iterator} (h : it.mFrameData = none) :
    id3.framesFrom calls it = [] := by
  cases calls with
  | zero => rfl
  | succ calls => rw [ID3.framesFrom, h]

theorem framesFrom_step {calls mFrameData : Nat} {it : Iterator} (h : it.mFrameData = some mFrameData) :
    id3.framesFrom (calls + 1) it =
      (id3.getID it, id3.getData it mFrameData) :: id3.framesFrom calls (id3.next none it) := by
  rw [ID3.framesFrom, h]

/-- An iterator is done after as many calls as the tag has bytes. -/
theorem framesFrom_calls {calls mOffset : Nat} (h : id3.mSize < mOffset + calls) :
    id3.framesFrom (calls + 1) (id3.findFrame none mOffset) =
      id3.framesFrom calls (id3.findFrame none mOffset) := by
  induction calls generalizing mOffset with
  | zero =>
    rw [ID3.findFrame, ID3.findFrameFrom, look_end (show id3.mSize < mOffset from h)]
    rfl
  | succ calls ih =>
    generalize hit : id3.findFrame none mOffset = it
    cases hdata : it.mFrameData with
    | none => rw [framesFrom_done hdata, framesFrom_done hdata]
    | some mFrameData =>
      have hnext : id3.next none it = id3.findFrame none (it.mOffset + it.mFrameSize) := by
        rw [ID3.next, hdata]
      rw [framesFrom_step hdata, framesFrom_step hdata, hnext]
      obtain hdone | ⟨hle, hpos, _⟩ := findFrameFrom_bounds none hit
      · cases hdone.symm.trans hdata
      · rw [ih (by omega)]

/-! ### Runs -/

theorem getHeaderLength_eq (hversion : id3.mVersion = v) : id3.getHeaderLength = v.headerLength := by
  rw [ID3.getHeaderLength, hversion]
  cases v <;> rfl

theorem idLength_eq (hversion : id3.mVersion = v) : id3.idLength = v.idLength := by
  rw [ID3.idLength, hversion]
  cases v <;> rfl

/-- The iterator gives the frames in their order. -/
theorem framesFrom_spec (hversion : id3.mVersion = v) {frames : List (Frame v)} {n calls : Nat}
    (hcalls : frames.length < calls)
    (hdata : id3.mData = front ++ (frames.flatMap Frame.bytes ++ (padding n ++ back)))
    (hsize : id3.mSize = (front ++ (frames.flatMap Frame.bytes ++ padding n)).length)
    (hsmall : id3.mSize ≤ kMaxMetadataSize) :
    id3.framesFrom calls (id3.findFrame none front.length) = frames.map Frame.content := by
  induction frames generalizing front calls with
  | nil =>
    obtain ⟨calls, rfl⟩ := Nat.exists_eq_succ_of_ne_zero hcalls.ne_bot
    rw [ID3.findFrame, ID3.findFrameFrom, look_padding hdata hsize]
    rfl
  | cons frame frames ih =>
    obtain ⟨calls, rfl⟩ := Nat.exists_eq_succ_of_ne_zero (Nat.ne_of_gt (Nat.zero_lt_of_lt hcalls))
    rw [List.flatMap_cons] at hdata hsize
    have hdata' : id3.mData =
        front ++ (frame.bytes ++ (frames.flatMap Frame.bytes ++ (padding n ++ back))) := by
      rw [hdata, List.append_assoc]
    have hfits : (front ++ frame.bytes).length ≤ id3.mSize := by
      rw [hsize]
      simp only [List.length_append]
      omega
    have hlook := look_frame hversion frame hdata' hfits hsmall
    have hfound : id3.findFrame none front.length =
        ⟨front.length, some (front.length + v.headerLength), frame.bytes.length⟩ := by
      rw [ID3.findFrame, ID3.findFrameFrom, hlook]
      dsimp only
      rw [ID3.matchesId, if_pos rfl, getHeaderLength_eq hversion]
    have hgetID : id3.getID (id3.findFrame none front.length) = frame.id := by
      rw [hfound, ID3.getID, idLength_eq hversion, hdata', frame.slice_id]
    have hgetData : id3.getData (id3.findFrame none front.length) (front.length + v.headerLength) =
        frame.payload := by
      rw [hfound, ID3.getData, getHeaderLength_eq hversion, hdata', frame.length_bytes,
        Nat.add_sub_cancel_left, frame.slice_payload]
    have hnext : id3.next none (id3.findFrame none front.length) =
        id3.findFrame none (front ++ frame.bytes).length := by
      rw [hfound, ID3.next, List.length_append]
    have hrestData : id3.mData =
        (front ++ frame.bytes) ++ (frames.flatMap Frame.bytes ++ (padding n ++ back)) := by
      rw [hdata', List.append_assoc]
    have hrestSize : id3.mSize =
        ((front ++ frame.bytes) ++ (frames.flatMap Frame.bytes ++ padding n)).length := by
      rw [hsize]
      simp only [List.append_assoc]
    have hrest := ih (Nat.lt_of_succ_lt_succ hcalls) hrestData hrestSize
    have hframeData : (id3.findFrame none front.length).mFrameData =
        some (front.length + v.headerLength) := by
      rw [hfound]
    rw [framesFrom_step hframeData, hnext, hgetID, hgetData, hrest]
    rfl

end MediaFramework.Id3
