import MediaFramework.Id3.Iteration

/-!
# Recovery of frames

What `parseV2` makes of an encoded tag. The frames come back, but for two kinds of tags of version 4.
The pass over the frames begins at an extended header, and takes it for a frame. It takes the four
bytes behind the header of a frame for the data length indicator, also where the byte of a group
stands in front of it.
-/

namespace MediaFramework.Id3

open Ebml (bigEndian number)

variable {source body : List Byte} {offset : Nat} {version_major version_minor flags : Byte}
  {v : Version}

/-! ### Headers -/

theorem readAt_front {data : List Byte} (back : List Byte) {n : Nat} (h : source.drop offset = data ++ back)
    (hn : data.length = n) : readAt source offset n = some data := by
  have hslice : Ring.slice source offset n = data := by
    rw [Ring.slice, h, List.take_left' hn]
  rw [readAt, hslice, if_pos hn]

/-- What is done with the bytes behind the header. -/
def parseBody (mVersion : Version) (flags : Byte) (body : List Byte) : Option ID3 := do
  let (mData, mSize) ← resynchronize mVersion flags body body.length
  let (mFirstFrameOffset, mSize) ← parseExtendedHeader mVersion flags mData mSize
  return { mData, mSize, mFirstFrameOffset, mVersion }

theorem parseBody_eq {mData : List Byte} {mSize mSize' first : Nat}
    (hresynchronize : resynchronize v flags body body.length = some (mData, mSize))
    (hparse : parseExtendedHeader v flags mData mSize = some (first, mSize')) :
    parseBody v flags body = some ⟨mData, mSize', first, v⟩ := by
  rw [parseBody, hresynchronize]
  show (parseExtendedHeader v flags mData mSize).bind _ = _
  rw [hparse]
  rfl

theorem parseExtendedHeader_absent {mData : List Byte} {mSize : Nat} (h : flags &&& 0x40 = 0) :
    parseExtendedHeader v flags mData mSize = some (0, mSize) := by
  rw [parseExtendedHeader, if_neg fun hflag => hflag.2 h, if_neg fun hflag => hflag.2 h]

theorem parseV2_bytes
    (hstands : [0x49, 0x44, 0x33, version_major, version_minor, flags] ++
      (syncsafe body.length ++ body) <+: source.drop offset)
    (hversion : headerVersion version_major version_minor flags = some v)
    (hsize : body.length ≤ kMaxMetadataSize) : parseV2 source offset = parseBody v flags body := by
  obtain ⟨back, hback⟩ := hstands
  have hmax : kMaxMetadataSize = 3145728 := rfl
  have hheader : readAt source offset 10 =
      some ([0x49, 0x44, 0x33, version_major, version_minor, flags] ++ syncsafe body.length) := by
    refine readAt_front (body ++ back) ?_ rfl
    rw [← hback]
    simp only [List.append_assoc]
  have hbody : readAt source (offset + 10) body.length = some body := by
    refine readAt_front back ?_ rfl
    rw [← List.drop_drop, ← hback]
    rfl
  have hparse : ParseSyncsafeInteger (syncsafe body.length) = some body.length :=
    parse_syncsafe (by omega)
  have hmagic : ([0x49, 0x44, 0x33, version_major, version_minor, flags] ++
      syncsafe body.length).take 3 = [0x49, 0x44, 0x33] := rfl
  rw [parseV2, hheader, Option.bind_eq_bind, Option.bind_some]
  dsimp only
  rw [if_neg (not_not.mpr hmagic)]
  show (headerVersion version_major version_minor flags).bind _ = _
  rw [hversion, Option.bind_some]
  show (ParseSyncsafeInteger (syncsafe body.length)).bind _ = _
  rw [hparse, Option.bind_some, if_neg (by omega), hbody, Option.bind_eq_bind, Option.bind_some]
  rfl

theorem headerVersion_two (hminor : version_minor ≠ 0xFF) (hflags : flags &&& 0x7F = 0) :
    headerVersion 2 version_minor flags = some .ID3_V2_2 := by
  have hpart : ∀ part : Byte, 0x7F &&& part = part → flags &&& part = 0 := by
    intro part hpart
    rw [← hpart, ← BitVec.and_assoc, hflags]
    exact BitVec.zero_and
  rw [headerVersion, if_neg (not_or_intro (by decide) hminor), if_pos rfl,
    if_neg (not_not.mpr (hpart 0x3F rfl)), if_neg (not_not.mpr (hpart 0x40 rfl))]

theorem headerVersion_three (hminor : version_minor ≠ 0xFF) (hflags : flags &&& 0x1F = 0) :
    headerVersion 3 version_minor flags = some .ID3_V2_3 := by
  rw [headerVersion, if_neg (not_or_intro (by decide) hminor), if_neg (by decide), if_pos rfl,
    if_neg (not_not.mpr hflags)]

theorem headerVersion_four (hminor : version_minor ≠ 0xFF) (hflags : flags &&& 0x0F = 0) :
    headerVersion 4 version_minor flags = some .ID3_V2_4 := by
  rw [headerVersion, if_neg (not_or_intro (by decide) hminor), if_neg (by decide), if_neg (by decide),
    if_pos rfl, if_neg (not_not.mpr hflags)]

theorem flagsV2_2 {a : Bool} (h : flags = if a then 0x80 else 0) :
    flags &&& 0x7F = 0 ∧ (flags &&& 0x80 ≠ 0 ↔ a) ∧ flags &&& 0x40 = 0 := by
  rw [h]
  clear h
  revert a
  decide

/-- What the flags of version 3 say, whatever the one that does not matter. -/
theorem flagsV2_3 {a b : Bool}
    (h : flags &&& 0xDF = (if a then 0x80 else 0) ||| (if b then 0x40 else 0)) :
    flags &&& 0x1F = 0 ∧ (flags &&& 0x80 ≠ 0 ↔ a) ∧ (flags &&& 0x40 ≠ 0 ↔ b) := by
  have hpart : ∀ part : Byte, 0xDF &&& part = part → flags &&& part =
      ((if a then 0x80 else 0) ||| (if b then 0x40 else 0)) &&& part := by
    intro part hpart
    rw [← h, BitVec.and_assoc, hpart]
  rw [hpart 0x1F rfl, hpart 0x80 rfl, hpart 0x40 rfl]
  clear h hpart
  revert a b
  decide

theorem flagsV2_4 {b : Bool} (h : flags &&& 0x4F = if b then 0x40 else 0) :
    flags &&& 0x0F = 0 ∧ (flags &&& 0x40 ≠ 0 ↔ b) := by
  have hpart : ∀ part : Byte, 0x4F &&& part = part →
      flags &&& part = (if b then 0x40 else 0) &&& part := by
    intro part hpart
    rw [← h, BitVec.and_assoc, hpart]
  rw [hpart 0x0F rfl, hpart 0x40 rfl]
  clear h hpart
  revert b
  decide

/-! ### Tags as a whole -/

/-- The bytes without the unsynchronization of all of them. -/
theorem resynchronize_whole {contents : List Byte} {unsynchronised : Bool} (hv : v ≠ .ID3_V2_4)
    (hflag : flags &&& 0x80 ≠ 0 ↔ unsynchronised)
    (hbody : if unsynchronised then Unsynchronised contents body else body = contents) :
    contents.length ≤ body.length ∧
      ∃ junk, resynchronize v flags body body.length = some (contents ++ junk, contents.length) := by
  rw [resynchronize, if_neg hv]
  cases unsynchronised with
  | false =>
    obtain rfl : body = contents := hbody
    refine ⟨Nat.le_refl _, [], ?_⟩
    rw [if_neg fun h => Bool.false_ne_true (hflag.mp h), List.append_nil]
  | true =>
    have hdesync : desync 0 body = contents := Unsynchronised.desync_zero hbody
    have hle := length_desync_le 0 body
    obtain ⟨mData', hrun, htake⟩ := removeUnsynchronization_spec body
    rw [hdesync] at hrun htake hle
    refine ⟨hle, mData'.drop contents.length, ?_⟩
    rw [if_pos (hflag.mpr rfl), hrun]
    congr 2
    rw [← List.take_append_drop contents.length mData', htake]
    simp

theorem length_frames_le' (frames : List (Frame v)) :
    frames.length ≤ (frames.flatMap Frame.bytes).length := by
  induction frames with
  | nil => exact Nat.le_refl _
  | cons frame frames ih =>
    have hpos := frame.length_payload_pos
    rw [List.flatMap_cons, List.length_append, List.length_cons, frame.length_bytes]
    omega

/-- The frames behind what is in front of them. -/
theorem frames_spec (front back : List Byte) (frames : List (Frame v)) (n : Nat) {id3 : ID3}
    (hversion : id3.mVersion = v) (hoffset : id3.mFirstFrameOffset = front.length)
    (hdata : id3.mData = front ++ (frames.flatMap Frame.bytes ++ (padding n ++ back)))
    (hsize : id3.mSize = (front ++ (frames.flatMap Frame.bytes ++ padding n)).length)
    (hsmall : id3.mSize ≤ kMaxMetadataSize) : id3.frames = frames.map Frame.content := by
  have hle := length_frames_le' frames
  have hcalls : frames.length < id3.mSize + 1 := by
    rw [hsize]
    simp only [List.length_append]
    omega
  rw [ID3.frames, ID3.begin, hoffset]
  exact framesFrom_spec hversion hcalls hdata hsize hsmall

/-! ### Version 2 -/

theorem parseBody_v2_2 {unsynchronised : Bool} {frames : List (Frame .ID3_V2_2)} {n : Nat}
    (hflags : flags = if unsynchronised then 0x80 else 0)
    (hbody : if unsynchronised then Unsynchronised (frames.flatMap Frame.bytes ++ padding n) body
      else body = frames.flatMap Frame.bytes ++ padding n)
    (hsmall : body.length ≤ kMaxMetadataSize) :
    ∃ id3, parseBody .ID3_V2_2 flags body = some id3 ∧ id3.frames = frames.map Frame.content := by
  obtain ⟨_, hflag, hextended⟩ := flagsV2_2 hflags
  obtain ⟨hle, junk, hrun⟩ := resynchronize_whole (v := .ID3_V2_2) (by decide) hflag hbody
  exact ⟨_, parseBody_eq hrun (parseExtendedHeader_absent hextended),
    frames_spec [] junk frames n rfl rfl (List.append_assoc _ _ _) rfl (hle.trans hsmall)⟩

/-! ### Version 3 -/

theorem length_extendedHeaderV2_3 (header : ExtendedHeaderV2_3) (n : Nat) :
    (header.bytes n).length = if header.crc.isSome then 14 else 10 := by
  rw [ExtendedHeaderV2_3.bytes]
  cases header.crc <;> rfl

/-- The size of an extended header, without its first four bytes. -/
theorem u32_at_zero (header : ExtendedHeaderV2_3) (n : Nat) (back : List Byte) :
    U32_AT (header.bytes n ++ back) 0 + 4 = (header.bytes n).length := by
  rw [length_extendedHeaderV2_3, ExtendedHeaderV2_3.bytes, U32_AT]
  cases header.crc <;> rfl

theorem u32_at_six (header : ExtendedHeaderV2_3) {n : Nat} (hn : n < 2 ^ 32) (back : List Byte) :
    U32_AT (header.bytes n ++ back) 6 = n := by
  have hnumber : number (bigEndian 4 n) = n := by
    rw [Ebml.number_bigEndian]
    exact Nat.mod_eq_of_lt hn
  rw [ExtendedHeaderV2_3.bytes, U32_AT]
  cases header.crc <;> exact hnumber

/-- The padding is not part of the frames. -/
theorem parseExtendedHeaderV2_3_spec (header : ExtendedHeaderV2_3) {n : Nat} (hn : n < 2 ^ 32)
    (middle junk : List Byte) :
    parseExtendedHeaderV2_3 (header.bytes n ++ (middle ++ padding n) ++ junk)
        (header.bytes n ++ (middle ++ padding n)).length =
      some ((header.bytes n).length, (header.bytes n ++ middle).length) := by
  have hfirst := u32_at_zero header n (middle ++ padding n ++ junk)
  have hpadding := u32_at_six header hn (middle ++ padding n ++ junk)
  have hlength := length_extendedHeaderV2_3 header n
  have hword : SIZE_MAX = 18446744073709551615 := rfl
  have hten : 10 ≤ (header.bytes n).length ∧ (header.bytes n).length ≤ 14 := by
    rw [hlength]
    split <;> omega
  have hzeros : (padding n).length = n := List.length_replicate
  rw [← List.append_assoc] at hfirst hpadding
  rw [parseExtendedHeaderV2_3]
  dsimp only
  rw [hfirst, hpadding]
  simp only [List.length_append, hzeros]
  rw [if_neg (by omega), if_neg (by omega), if_neg (by omega), if_pos (by omega), if_neg (by omega)]
  congr 2
  omega

theorem parseBody_v2_3 {unsynchronised : Bool} {header : Option ExtendedHeaderV2_3}
    {frames : List (Frame .ID3_V2_3)} {n : Nat}
    (hflags : flags &&& 0xDF =
      (if unsynchronised then 0x80 else 0) ||| (if header.isSome then 0x40 else 0))
    (hbody : if unsynchronised then
      Unsynchronised (header.elim [] (·.bytes n) ++ (frames.flatMap Frame.bytes ++ padding n)) body
      else body = header.elim [] (·.bytes n) ++ (frames.flatMap Frame.bytes ++ padding n))
    (hsmall : body.length ≤ kMaxMetadataSize) :
    ∃ id3, parseBody .ID3_V2_3 flags body = some id3 ∧ id3.frames = frames.map Frame.content := by
  obtain ⟨_, hflag, hextended⟩ := flagsV2_3 hflags
  have hmax : kMaxMetadataSize = 3145728 := rfl
  obtain ⟨hle, junk, hrun⟩ := resynchronize_whole (v := .ID3_V2_3) (by decide) hflag hbody
  cases header with
  | none =>
    rw [Option.elim_none, List.nil_append] at hle hrun
    have habsent : flags &&& 0x40 = 0 := by
      by_contra hflag
      exact Bool.false_ne_true (hextended.mp hflag)
    exact ⟨_, parseBody_eq hrun (parseExtendedHeader_absent habsent),
      frames_spec [] junk frames n rfl rfl (List.append_assoc _ _ _) rfl (hle.trans hsmall)⟩
  | some header =>
    rw [Option.elim_some] at hle hrun
    have hzeros : (padding n).length = n := List.length_replicate
    have hn : n < 2 ^ 32 := by
      simp only [List.length_append, hzeros] at hle
      omega
    have hparse := parseExtendedHeaderV2_3_spec header hn (frames.flatMap Frame.bytes) junk
    have hpresent : parseExtendedHeader .ID3_V2_3 flags
        (header.bytes n ++ (frames.flatMap Frame.bytes ++ padding n) ++ junk)
        (header.bytes n ++ (frames.flatMap Frame.bytes ++ padding n)).length =
        some ((header.bytes n).length, (header.bytes n ++ frames.flatMap Frame.bytes).length) := by
      rw [parseExtendedHeader, if_pos ⟨rfl, hextended.mpr rfl⟩, hparse]
    refine ⟨_, parseBody_eq hrun hpresent, ?_⟩
    -- the padding lies behind the end
    refine frames_spec (header.bytes n) (padding n ++ junk) frames 0 rfl rfl ?_ ?_ ?_
    · simp only [List.append_assoc]
      rfl
    · simp only [padding, List.replicate_zero, List.append_nil]
    · simp only [List.length_append] at hle ⊢
      omega

/-! ### Version 4 -/

/-- The frames are those that were stored if the bytes of their groups stay. -/
theorem returned_eq_iff (frames : List StoredFrame) :
    frames.map (fun stored => stored.returned.content) =
        frames.map (fun stored => stored.frame.content) ↔ ∀ stored ∈ frames, stored.GroupKept := by
  rw [List.map_inj_left]
  refine forall₂_congr fun stored _ => ?_
  rw [← stored.recovered_eq_iff]
  exact Prod.mk.injEq _ _ _ _ ▸ and_iff_right rfl

theorem parseBody_v2_4 {frames : List StoredFrame} {n : Nat} (hflag : flags &&& 0x40 = 0)
    (hbody : body = frames.flatMap StoredFrame.bytes ++ padding n)
    (hsmall : body.length ≤ kMaxMetadataSize) :
    ∃ id3, parseBody .ID3_V2_4 flags body = some id3 ∧
      id3.frames = frames.map fun stored => stored.returned.content := by
  have hmax : kMaxMetadataSize = 3145728 := rfl
  subst hbody
  obtain ⟨junk, hrun, hle⟩ := removeUnsynchronizationV2_4_spec frames n (by omega)
  have hplain : frames.flatMap plainBytes = (frames.map StoredFrame.returned).flatMap Frame.bytes := by
    rw [List.flatMap_map]
    rfl
  have hresynchronize : resynchronize .ID3_V2_4 flags (frames.flatMap StoredFrame.bytes ++ padding n)
      (frames.flatMap StoredFrame.bytes ++ padding n).length =
      some (frames.flatMap plainBytes ++ (padding n ++ junk),
        (frames.flatMap plainBytes ++ padding n).length) := by
    rw [resynchronize, if_pos rfl, hrun, Option.some_or]
  refine ⟨_, parseBody_eq hresynchronize (parseExtendedHeader_absent hflag), ?_⟩
  rw [hplain] at hle ⊢
  refine (frames_spec [] junk (frames.map StoredFrame.returned) n rfl rfl rfl rfl
    (hle.trans hsmall)).trans ?_
  rw [List.map_map]
  rfl

/-! ### Version 4 with an extended header -/

namespace ExtendedHeaderV2_4

variable (header : ExtendedHeaderV2_4)

theorem length_bytes : header.bytes.length = 6 + header.fields.length := by
  rw [bytes, List.length_append, length_syncsafe, List.length_cons, List.length_cons]
  omega

/-- The size of the header is not the id of no frame. -/
theorem size_ne : syncsafe (6 + header.fields.length) ≠ [0, 0, 0, 0] := by
  intro hzero
  have hshort := header.short
  have hsize := parse_syncsafe (x := 6 + header.fields.length) (by omega)
  rw [hzero] at hsize
  have hnone : ParseSyncsafeInteger [0, 0, 0, 0] = some 0 := rfl
  rw [hnone] at hsize
  have := Option.some.inj hsize
  omega

/-- The header that is taken for the header of a frame has a size that starts with 1. -/
theorem slice_four (back : List Byte) (hlength : 10 ≤ (header.bytes ++ back).length) :
    ∃ a b, Ring.slice (header.bytes ++ back) 4 4 = [1, header.flags, a, b] := by
  have hshape : header.bytes ++ back = syncsafe (6 + header.fields.length) ++
      (1 :: header.flags :: (header.fields ++ back)) := by
    rw [bytes, List.append_assoc]
    rfl
  have hrest : 2 ≤ (header.fields ++ back).length := by
    rw [List.length_append, length_bytes] at hlength
    rw [List.length_append]
    omega
  obtain ⟨a, rest, ha⟩ := List.exists_cons_of_length_pos (Nat.zero_lt_of_lt hrest)
  rw [ha, List.length_cons] at hrest
  obtain ⟨b, rest', hb⟩ := List.exists_cons_of_length_pos (Nat.le_of_succ_le_succ hrest)
  rw [ha, hb] at hshape
  have hfour : [1, header.flags, a, b].length = 4 := rfl
  refine ⟨a, b, ?_⟩
  rw [hshape]
  exact Ring.slice_append (length_syncsafe _) hfour

/-- No frame of that size fits. -/
theorem frameSize_large {back : List Byte} (hlength : 10 ≤ (header.bytes ++ back).length)
    (iTunesHack : Bool) {dataSize : Nat}
    (h : frameSize iTunesHack (header.bytes ++ back) 0 = some dataSize) : 2 ^ 21 ≤ dataSize := by
  obtain ⟨a, b, hslice⟩ := header.slice_four back hlength
  rw [frameSize, Nat.zero_add] at h
  cases iTunesHack with
  | false =>
    rw [if_neg Bool.false_ne_true, hslice] at h
    exact le_of_parse_one h
  | true =>
    rw [if_pos rfl, U32_AT, hslice] at h
    obtain rfl := Option.some.inj h
    have hone : (1 : Byte).toNat = 1 := rfl
    simp only [number, List.foldl_cons, List.foldl_nil, hone]
    omega

theorem removeUnsynchronizationV2_4_none {back : List Byte}
    (hlength : 10 ≤ (header.bytes ++ back).length)
    (hsmall : (header.bytes ++ back).length < 2 ^ 21 + 10) (iTunesHack : Bool) :
    removeUnsynchronizationV2_4 iTunesHack (header.bytes ++ back) (header.bytes ++ back).length =
      none := by
  have hid : Ring.slice (header.bytes ++ back) 0 4 = syncsafe (6 + header.fields.length) := by
    rw [bytes, List.append_assoc]
    exact Ring.slice_front (length_syncsafe _)
  have hat : removeUnsynchronizationAt iTunesHack (header.bytes ++ back).length (header.bytes ++ back)
      (header.bytes ++ back).length 0 = none := by
    rw [removeUnsynchronizationAt]
    cases hframe : frameSize iTunesHack (header.bytes ++ back) 0 with
    | none => rfl
    | some dataSize =>
      have hlarge := header.frameSize_large hlength iTunesHack hframe
      dsimp only
      rw [if_pos (by omega)]
  rw [removeUnsynchronizationV2_4]
  dsimp only
  rw [removeUnsynchronizationV2_4From, if_neg (by omega), hid, if_neg header.size_ne, hat]
  rfl

end ExtendedHeaderV2_4

/-- A tag with room for a frame behind the extended header is not parsed. -/
theorem parseBody_extended_none (header : ExtendedHeaderV2_4) {back : List Byte}
    (hbody : body = header.bytes ++ back) (hlength : 10 ≤ body.length)
    (hsmall : body.length < 2 ^ 21 + 10) : parseBody .ID3_V2_4 flags body = none := by
  subst hbody
  rw [parseBody, resynchronize, if_pos rfl,
    header.removeUnsynchronizationV2_4_none hlength hsmall false,
    header.removeUnsynchronizationV2_4_none hlength hsmall true]
  rfl

/-- Without such room, there is nothing that is taken for a frame. -/
theorem parseBody_extended_short (header : ExtendedHeaderV2_4) {n : Nat} (hflag : flags &&& 0x40 ≠ 0)
    (hbody : body = header.bytes ++ padding n) (hlength : body.length < 10) :
    ∃ id3, parseBody .ID3_V2_4 flags body = some id3 ∧ id3.frames = [] := by
  subst hbody
  have hshort := header.short
  have hheader := header.length_bytes
  have hmax : kMaxMetadataSize = 3145728 := rfl
  -- the pass ends before the first frame, and changes nothing
  have hkept : removeUnsynchronizationV2_4 false (header.bytes ++ padding n)
      (header.bytes ++ padding n).length =
      some (header.bytes ++ padding n, (header.bytes ++ padding n).length) := by
    rw [removeUnsynchronizationV2_4]
    dsimp only
    rw [removeUnsynchronizationV2_4From, if_pos (by omega), Option.bind_eq_bind, Option.bind_some]
    dsimp only
    rw [Nat.sub_self, Ring.poke, List.take_length]
    simp
  have hresynchronize : resynchronize .ID3_V2_4 flags (header.bytes ++ padding n)
      (header.bytes ++ padding n).length =
      some (header.bytes ++ padding n, (header.bytes ++ padding n).length) := by
    rw [resynchronize, if_pos rfl, hkept, Option.some_or]
  have hslice : Ring.slice (header.bytes ++ padding n) 0 4 = syncsafe header.bytes.length := by
    rw [ExtendedHeaderV2_4.bytes, List.append_assoc]
    rw [Ring.slice_front (length_syncsafe _), ← ExtendedHeaderV2_4.bytes, hheader]
  have hparse : parseExtendedHeaderV2_4 (header.bytes ++ padding n)
      (header.bytes ++ padding n).length = some header.bytes.length := by
    rw [List.length_append] at hlength ⊢
    rw [parseExtendedHeaderV2_4, if_neg (by omega), hslice, parse_syncsafe (by omega)]
    show (if _ then none else some header.bytes.length) = _
    rw [if_neg (by omega)]
  have hpresent : parseExtendedHeader .ID3_V2_4 flags (header.bytes ++ padding n)
      (header.bytes ++ padding n).length =
      some (header.bytes.length, (header.bytes ++ padding n).length) := by
    rw [parseExtendedHeader, if_neg (fun h => absurd h.1 (by decide)), if_pos ⟨rfl, hflag⟩, hparse]
    rfl
  refine ⟨_, parseBody_eq hresynchronize hpresent, ?_⟩
  refine frames_spec (v := .ID3_V2_4) header.bytes [] [] n rfl rfl ?_ rfl (hlength.le.trans (by omega))
  rw [List.flatMap_nil, List.nil_append, List.append_nil]

/-! ### Tags -/

variable {tag : Tag} {bytes : List Byte}

/-- The tag at an offset is parsed, and an iterator gives these frames. -/
def Recovers (source : List Byte) (offset : Nat) (frames : List (List Byte × List Byte)) : Prop :=
  ∃ id3, parseV2 source offset = some id3 ∧ id3.frames = frames

namespace Tag

def version : Tag → Version
  | v2_2 _ _ _ => .ID3_V2_2
  | v2_3 _ _ _ _ => .ID3_V2_3
  | v2_4 _ _ _ => .ID3_V2_4

/-- The bytes of the groups of all frames come back. -/
def GroupsKept : Tag → Prop
  | v2_4 _ frames _ => ∀ stored ∈ frames, stored.GroupKept
  | _ => True

theorem headerVersion_of_flagsFor (hminor : version_minor ≠ 0xFF) (h : tag.FlagsFor flags) :
    headerVersion tag.version_major version_minor flags = some tag.version := by
  cases tag with
  | v2_2 unsynchronised frames paddingSize => exact headerVersion_two hminor (flagsV2_2 h).1
  | v2_3 unsynchronised header frames paddingSize => exact headerVersion_three hminor (flagsV2_3 h).1
  | v2_4 header frames paddingSize => exact headerVersion_four hminor (flagsV2_4 h).1

/-- A tag stands at an offset. -/
theorem Encodes.parseV2 (h : tag.Encodes body bytes) (hstands : bytes <+: source.drop offset) :
    ∃ flags, tag.FlagsFor flags ∧ Id3.parseV2 source offset = parseBody tag.version flags body := by
  obtain ⟨_, hsize, version_minor, flags, hminor, hflags, rfl⟩ := h
  exact ⟨flags, hflags, parseV2_bytes hstands (headerVersion_of_flagsFor hminor hflags) hsize⟩

end Tag

/-- Behind an extended header, the first frame ends after ten bytes. -/
theorem frames_eq_nil {header : ExtendedHeaderV2_4} {frames : List StoredFrame} {back : List Byte}
    (h : (header.bytes ++ (frames.flatMap StoredFrame.bytes ++ back)).length < 10) : frames = [] := by
  cases frames with
  | nil => rfl
  | cons stored frames =>
    rw [List.flatMap_cons, stored.bytes_eq] at h
    simp only [List.length_append, stored.length_header] at h
    omega

/-- The frames of a tag come back unless an extended header of version 4 is taken for a frame, or the
byte of a group for a byte of the indicator. They do not come back otherwise, where the frame that
the extended header is taken for would be larger than the tag. -/
theorem parseV2_recovers (h : tag.Encodes body bytes) (hstands : bytes <+: source.drop offset) :
    ((¬tag.HasExtendedHeaderV2_4 ∨ body.length < 10) ∧ tag.GroupsKept →
      Recovers source offset tag.frames) ∧
    (¬((¬tag.HasExtendedHeaderV2_4 ∨ body.length < 10) ∧ tag.GroupsKept) →
      (tag.HasExtendedHeaderV2_4 → body.length < 2 ^ 21 + 10) →
        ¬Recovers source offset tag.frames) := by
  obtain ⟨flags, hflags, hparse⟩ := h.parseV2 hstands
  obtain ⟨hbody, hsize, _⟩ := h
  rw [Recovers, hparse]
  cases tag with
  -- the older versions have no pass over single frames
  | v2_2 unsynchronised frames paddingSize =>
    exact ⟨fun _ => parseBody_v2_2 hflags hbody hsize, fun hnot => absurd ⟨.inl id, trivial⟩ hnot⟩
  | v2_3 unsynchronised header frames paddingSize =>
    exact ⟨fun _ => parseBody_v2_3 hflags hbody hsize, fun hnot => absurd ⟨.inl id, trivial⟩ hnot⟩
  | v2_4 header frames paddingSize =>
    obtain ⟨_, hextended⟩ := flagsV2_4 hflags
    cases header with
    | none =>
      have habsent : flags &&& 0x40 = 0 := by
        by_contra hflag
        exact Bool.false_ne_true (hextended.mp hflag)
      obtain ⟨id3, hsome, hframes⟩ := parseBody_v2_4 habsent hbody hsize
      refine ⟨fun hkept => ⟨id3, hsome, hframes.trans ((returned_eq_iff frames).mpr hkept.2)⟩, ?_⟩
      rintro hnot _ ⟨id3', hsome', hframes'⟩
      obtain rfl := Option.some.inj (hsome.symm.trans hsome')
      exact hnot ⟨.inl id, (returned_eq_iff frames).mp (hframes.symm.trans hframes')⟩
    | some header =>
      have hcontents : body = header.bytes ++ (frames.flatMap StoredFrame.bytes ++
          padding paddingSize) := hbody
      have hempty : body.length < 10 → frames = [] := fun hshort => frames_eq_nil (hcontents ▸ hshort)
      refine ⟨?_, ?_⟩
      -- with an extended header, the frames come back only where there is no room for one
      · rintro ⟨habsent | hshort, _⟩
        · exact absurd trivial habsent
        · obtain rfl := hempty hshort
          exact parseBody_extended_short header (hextended.mpr rfl) hcontents hshort
      -- the frame that the header is taken for does not fit
      · intro hnot hsmall
        have hlong : 10 ≤ body.length := by
          by_contra hshort
          obtain rfl := hempty (not_le.mp hshort)
          exact hnot ⟨.inr (not_le.mp hshort), fun _ hmem => absurd hmem List.not_mem_nil⟩
        have hnone : parseBody .ID3_V2_4 flags body = none :=
          parseBody_extended_none header hbody hlong (hsmall trivial)
        rintro ⟨id3, hsome, _⟩
        cases hnone.symm.trans hsome

/-- A title whose data hold a false synchronisation. -/
def title : Frame .ID3_V2_4 where
  id := [0x54, 0x49, 0x54, 0x32]
  payload := [0x01, 0xFF, 0xFE, 0x41, 0x00]
  id_length := rfl
  id_ne := by decide
  payload_ne := by decide
  supported := rfl

/-- The title with a zero behind its `0xFF`, and with its length. -/
def storedTitle : StoredFrame where
  frame := title
  indicator := true
  unsynchronised := true
  data := [0x00, 0x00, 0x00, 0x05, 0x01, 0xFF, 0x00, 0xFE, 0x41, 0x00]
  encodes := .other (by decide) (.other (by decide) (.other (by decide) (.other (by decide)
    (.other (by decide) (.inserted (.other (by decide) (.other (by decide)
      (.other (by decide) .nil))))))))

/-- A frame of group 255. -/
def artist : Frame .ID3_V2_4 where
  id := [0x54, 0x50, 0x45, 0x31]
  flags := 0x0040
  payload := [0xFF, 0x00, 0x42]
  id_length := rfl
  id_ne := by decide
  payload_ne := by decide
  supported := rfl

/-- There is a zero behind the byte of the group, and no length. -/
def storedArtist : StoredFrame where
  frame := artist
  indicator := false
  unsynchronised := true
  data := [0xFF, 0x00, 0x00, 0x42]
  encodes :=
    have hzero : Unsynchronised [0x00, 0x42] [0x00, 0x42] :=
      .other (by decide) (.other (by decide) .nil)
    Unsynchronised.inserted hzero

theorem encodes_stored : (Tag.v2_4 none [storedTitle, storedArtist] 2).Encodes
    ([storedTitle, storedArtist].flatMap StoredFrame.bytes ++ padding 2)
    ([0x49, 0x44, 0x33, 0x04, 0x00, 0x00, 0x00, 0x00, 0x00, 0x24] ++
      ([0x54, 0x49, 0x54, 0x32, 0x00, 0x00, 0x00, 0x0A, 0x00, 0x03, 0x00, 0x00, 0x00, 0x05,
        0x01, 0xFF, 0x00, 0xFE, 0x41, 0x00] ++
        ([0x54, 0x50, 0x45, 0x31, 0x00, 0x00, 0x00, 0x04, 0x00, 0x42, 0xFF, 0x00, 0x00, 0x42] ++
          [0x00, 0x00]))) :=
  ⟨rfl, by decide, 0, 0, by decide, rfl, rfl⟩

theorem parseV2_recovers_title :
    Recovers ([0x49, 0x44, 0x33, 0x04, 0x00, 0x00, 0x00, 0x00, 0x00, 0x24] ++
      ([0x54, 0x49, 0x54, 0x32, 0x00, 0x00, 0x00, 0x0A, 0x00, 0x03, 0x00, 0x00, 0x00, 0x05,
        0x01, 0xFF, 0x00, 0xFE, 0x41, 0x00] ++
        ([0x54, 0x50, 0x45, 0x31, 0x00, 0x00, 0x00, 0x04, 0x00, 0x42, 0xFF, 0x00, 0x00, 0x42] ++
          [0x00, 0x00]))) 0
      [([0x54, 0x49, 0x54, 0x32], [0x01, 0xFF, 0xFE, 0x41, 0x00]),
        ([0x54, 0x50, 0x45, 0x31], [0xFF, 0x00, 0x42])] :=
  have hkept : ∀ stored ∈ [storedTitle, storedArtist], stored.GroupKept := by decide
  (parseV2_recovers encodes_stored List.prefix_rfl).1 ⟨.inl id, hkept⟩

/-- The same title as it is, behind an extended header. -/
theorem extended_header_taken_for_frame :
    ¬∀ (tag : Tag) (body bytes : List Byte), tag.Encodes body bytes → Recovers bytes 0 tag.frames := by
  intro h
  let stored : StoredFrame := ⟨title, false, false, title.payload, rfl⟩
  let header : ExtendedHeaderV2_4 := ⟨0, [], by decide⟩
  have hencodes : (Tag.v2_4 (some header) [stored] 0).Encodes (header.bytes ++ stored.bytes)
      ([0x49, 0x44, 0x33, 0x04, 0x00, 0x40, 0x00, 0x00, 0x00, 0x15] ++
        ([0x00, 0x00, 0x00, 0x06, 0x01, 0x00] ++
          [0x54, 0x49, 0x54, 0x32, 0x00, 0x00, 0x00, 0x05, 0x00, 0x00, 0x01, 0xFF, 0xFE, 0x41, 0x00])) :=
    ⟨rfl, by decide, 0, 0x40, by decide, rfl, by decide⟩
  obtain ⟨id3, hsome, _⟩ := h _ _ _ hencodes
  have hnone : parseV2 ([0x49, 0x44, 0x33, 0x04, 0x00, 0x40, 0x00, 0x00, 0x00, 0x15] ++
      ([0x00, 0x00, 0x00, 0x06, 0x01, 0x00] ++
        [0x54, 0x49, 0x54, 0x32, 0x00, 0x00, 0x00, 0x05, 0x00, 0x00, 0x01, 0xFF, 0xFE, 0x41, 0x00])) 0 =
      none := by
    decide
  cases hnone.symm.trans hsome

end MediaFramework.Id3
