import MediaFramework.Foundation.OpusHeader

/-!
# Opus headers are read back

What has been written in the unified format is found and parsed again, with what a decoder needs. A
header alone is too, unless its last byte is outside of the buffer.
-/

namespace MediaFramework.Foundation

open LittleEndian Buffer

variable {header : OpusHeader} {rate : Int} {output : List (BitVec 8)}

/-! ### What is written -/

/-- The fields before the channel mapping. -/
def headFields (header : OpusHeader) (rate : Int) : List (BitVec 8) :=
  opusHeadLabel ++ [1] ++ [BitVec.ofInt 8 header.channels] ++
    digits 2 (header.skipSamples % 2 ^ 32).toNat ++ digits 4 (rate % 2 ^ 32).toNat ++
    digits 2 header.gainDb.toNat

/-- The streams of the channels. -/
def channelStreams (header : OpusHeader) : List (BitVec 8) :=
  kOpusChannelMap.getD (header.channels - 1).toNat []

/-- The `OpusHead`, with the byte that its size counts too much. -/
def opusHead (header : OpusHeader) (rate : Int) : List (BitVec 8) :=
  if 2 < header.channels then
    headFields header rate ++ [1] ++ [BitVec.ofInt 8 header.channels] ++ [0] ++
      channelStreams header ++ [0]
  else headFields header rate ++ [0]

theorem length_headFields : (headFields header rate).length = 18 := rfl

theorem channelStreams_some (hpos : 1 ≤ header.channels) (hle : header.channels ≤ 8) :
    kOpusChannelMap[(header.channels - 1).toNat]? = some (channelStreams header) ∧
      (channelStreams header).length = header.channels.toNat := by
  have hrows : ∀ n < 8, kOpusChannelMap[n]? = some (kOpusChannelMap.getD n []) ∧
      (kOpusChannelMap.getD n []).length = n + 1 := by decide
  obtain ⟨hrow, hlength⟩ := hrows (header.channels - 1).toNat (by omega)
  refine ⟨hrow, hlength.trans ?_⟩
  omega

theorem totalSize_eq (hpos : 1 ≤ header.channels) (hle : header.channels ≤ 8) :
    ((kOpusHeaderStreamMapOffset + header.channels) % 2 ^ 64).toNat =
      21 + header.channels.toNat := by
  rw [kOpusHeaderStreamMapOffset]
  omega

theorem writeOpusHeader_short (hpos : 1 ≤ header.channels) (hle : header.channels ≤ 8)
    (h : output.length < 21 + header.channels) :
    writeOpusHeader header rate output = some (-1, output) := by
  simp only [writeOpusHeader, totalSize_eq hpos hle]
  rw [if_pos (by omega)]

theorem writeFields_spec {n : Nat} :
    writeFields header rate (List.replicate (18 + n) 0) =
      some (headFields header rate ++ List.replicate n 0) := by
  have hempty : ([] : List (BitVec 8)).length = kOpusHeaderLabelOffset := rfl
  refine (store_fill_bind (n := 10 + n) hempty (by simp [opusHeadLabel]; omega)).trans ?_
  refine (store_fill_bind (n := 9 + n) rfl (by simp; omega)).trans ?_
  refine (store_fill_bind (n := 8 + n) rfl (by simp; omega)).trans ?_
  refine (store_fill_bind (n := 6 + n) rfl (by simp; omega)).trans ?_
  refine (store_fill_bind (n := 2 + n) rfl (by simp; omega)).trans ?_
  exact store_fill rfl (by simp)

theorem writeStreamMap_spec (hpos : 1 ≤ header.channels) (hle : header.channels ≤ 8) {n : Nat} :
    writeStreamMap header
        (headFields header rate ++ [1] ++ List.replicate (2 + header.channels.toNat + n) 0) =
      some (headFields header rate ++ [1] ++ [BitVec.ofInt 8 header.channels] ++ [0] ++
        channelStreams header ++ List.replicate n 0) := by
  obtain ⟨hrow, hlength⟩ := channelStreams_some hpos hle
  refine (store_fill_bind (n := 1 + header.channels.toNat + n) rfl (by simp; omega)).trans ?_
  refine (store_fill_bind (n := header.channels.toNat + n) rfl (by simp; omega)).trans ?_
  rw [hrow, Option.bind_eq_bind, Option.bind_some]
  have hfront : (headFields header rate ++ [1] ++ [BitVec.ofInt 8 header.channels] ++ [0]).length =
      kOpusHeaderStreamMapOffset := rfl
  refine (store_each hfront (Nat.le_of_eq hlength.symm) (Nat.le_add_right ..)).trans ?_
  rw [← hlength, List.take_length, Nat.add_sub_cancel_left]

theorem writeOpusHeader_default (hpos : 1 ≤ header.channels) (hle : header.channels ≤ 2)
    (h : 21 + header.channels ≤ output.length) :
    writeOpusHeader header rate output =
      some (19, headFields header rate ++ [0] ++ List.replicate (output.length - 19) 0) := by
  have hlength : output.length = 18 + (output.length - 18) := by omega
  simp only [writeOpusHeader, totalSize_eq hpos (by omega)]
  rw [if_neg (by omega), hlength, writeFields_spec, Option.bind_eq_bind, Option.bind_some,
    if_neg (by omega)]
  refine (store_fill_bind (n := output.length - 19) rfl (by simp; omega)).trans ?_
  rw [← hlength]
  rfl

theorem writeOpusHeader_mapped (hpos : 2 < header.channels) (hle : header.channels ≤ 8)
    (h : 21 + header.channels ≤ output.length) :
    writeOpusHeader header rate output = some (22 + header.channels,
      headFields header rate ++ [1] ++ [BitVec.ofInt 8 header.channels] ++ [0] ++
        channelStreams header ++ List.replicate (output.length - (21 + header.channels.toNat)) 0) := by
  have hlength : output.length = 18 + (output.length - 18) := by omega
  simp only [writeOpusHeader, totalSize_eq (by omega) hle]
  rw [if_neg (by omega), hlength, writeFields_spec, Option.bind_eq_bind, Option.bind_some,
    if_pos hpos]
  refine (store_fill_bind
    (n := 2 + header.channels.toNat + (output.length - (21 + header.channels.toNat))) rfl
    (by simp; omega)).trans ?_
  rw [writeStreamMap_spec (by omega) hle, ← hlength]
  refine congrArg some (Prod.ext ?_ rfl)
  rw [kOpusHeaderStreamMapOffset]
  omega

/-! ### What is parsed -/

/-- Every channel has a stream of its own. -/
structure Consistent (header : OpusHeader) : Prop where
  streams : header.numStreams + header.numCoupled = header.channels
  coupled : 0 ≤ header.numCoupled ∧ header.numCoupled ≤ header.numStreams
  streamMap : ((header.streamMap.toList.take header.channels.toNat).map BitVec.toNat).Perm
    (List.range header.channels.toNat)

/-- The data is parsed to the header, with consistent streams, over any old one. -/
def ParsesBack (header : OpusHeader) (data : List (BitVec 8)) : Prop :=
  ∀ old, ∃ parsed, parseOpusHeader (some data) old = some (true, parsed) ∧
    parsed.channels = header.channels ∧ parsed.skipSamples = header.skipSamples ∧
    parsed.gainDb = header.gainDb ∧ Consistent parsed

theorem join_bytes (n : Nat) :
    ((BitVec.ofNat 8 n).setWidth 16 ||| (BitVec.ofNat 8 (n / 2 ^ 8)).setWidth 16 <<< 8) =
      BitVec.ofNat 16 n := by
  refine BitVec.eq_of_getLsbD_eq fun i hi => ?_
  simp only [BitVec.getLsbD_or, BitVec.getLsbD_setWidth, BitVec.getLsbD_shiftLeft,
    BitVec.getLsbD_ofNat, Nat.testBit_div_two_pow]
  by_cases h : i < 8
  · simp [h, hi]
  · have hadd : i - 8 + 8 = i := by omega
    have hlt : i - 8 < 8 := by omega
    have hwide : i - 8 < 16 := by omega
    simp [h, hi, hadd, hlt, hwide]

theorem readLE16_digits {data : List (BitVec 8)} {i n : Nat}
    (hlow : data[i]? = some (BitVec.ofNat 8 n))
    (hhigh : data[i + 1]? = some (BitVec.ofNat 8 (n / 256))) :
    readLE16 data i = BitVec.ofNat 16 n := by
  have hlength := (List.getElem?_eq_some_iff.mp hhigh).1
  rw [readLE16, if_neg (by omega), List.getD_eq_getElem?_getD, hlow, List.getD_eq_getElem?_getD,
    hhigh]
  exact join_bytes n

theorem readLE16_skipSamples (hpos : 0 ≤ header.skipSamples) (hle : header.skipSamples ≤ 65535)
    (back : List (BitVec 8)) :
    ((readLE16 (headFields header rate ++ back) kOpusHeaderSkipSamplesOffset).toNat : Int) =
      header.skipSamples := by
  have hread : readLE16 (headFields header rate ++ back) kOpusHeaderSkipSamplesOffset =
      BitVec.ofNat 16 (header.skipSamples % 2 ^ 32).toNat := readLE16_digits rfl rfl
  rw [hread, BitVec.toNat_ofNat]
  omega

theorem readLE16_gainDb (back : List (BitVec 8)) :
    readLE16 (headFields header rate ++ back) kOpusHeaderGainOffset = header.gainDb := by
  have hread : readLE16 (headFields header rate ++ back) kOpusHeaderGainOffset =
      BitVec.ofNat 16 header.gainDb.toNat := readLE16_digits rfl rfl
  rw [hread, BitVec.ofNat_toNat, BitVec.setWidth_eq]

theorem toNat_channels (hpos : 1 ≤ header.channels) (hle : header.channels ≤ 8) :
    ((BitVec.ofInt 8 header.channels).toNat : Int) = header.channels := by
  rw [BitVec.toNat_ofInt]
  omega

/-- The headers that there may be. -/
structure Valid (header : OpusHeader) : Prop where
  one_le_channels : 1 ≤ header.channels
  channels_le : header.channels ≤ 8
  zero_le_skipSamples : 0 ≤ header.skipSamples
  skipSamples_le : header.skipSamples ≤ 65535

theorem Valid.channels_ok (h : Valid header) :
    ¬(header.channels < 1 ∨ (kMaxChannels : Int) < header.channels) := by
  have hpos := h.one_le_channels
  have hle := h.channels_le
  rw [kMaxChannels]
  omega

theorem parseOpusHeader_default (h : Valid header) (hle : header.channels ≤ 2) (old : OpusHeader) :
    parseOpusHeader (some (headFields header rate ++ [0])) old = some (true, {
      channels := header.channels
      channelMapping := 0
      numStreams := 1
      numCoupled := if 1 < header.channels then 1 else 0
      gainDb := header.gainDb
      skipSamples := header.skipSamples
      streamMap := (old.streamMap.setIfInBounds 0 0).setIfInBounds 1 1 }) := by
  have hchannels : (headFields header rate ++ [0])[kOpusHeaderChannelsOffset]? =
      some (BitVec.ofInt 8 header.channels) := rfl
  have hmapping : (headFields header rate ++ [0])[kOpusHeaderChannelMappingOffset]? = some 0 := rfl
  have hlength : (headFields header rate ++ [0]).length = 19 := rfl
  simp only [parseOpusHeader, hlength, hchannels, hmapping, kOpusHeaderSize, Option.bind_eq_bind,
    Option.bind_some, toNat_channels h.one_le_channels h.channels_le, if_neg h.channels_ok,
    readLE16_gainDb, readLE16_skipSamples h.zero_le_skipSamples h.skipSamples_le]
  have hlayout : ¬(kMaxChannelsWithDefaultLayout : Int) < header.channels := by
    rw [kMaxChannelsWithDefaultLayout]
    omega
  have hzero : ((BitVec.toNat (0 : BitVec 8) : Nat) : Int) = 0 := rfl
  rw [if_neg (Nat.lt_irrefl 19), if_pos hzero, if_neg hlayout]
  rfl

/-- A loop that stores what it reads. -/
theorem streams_each {data streams : List (BitVec 8)} {n : Nat} (hn : n ≤ 8)
    (hread : ∀ i < n, data[kOpusHeaderStreamMapOffset + i]? = streams[i]?)
    (hlength : n ≤ streams.length) (streamMap : Vector (BitVec 8) 8) :
    ∃ streamMap', (List.range n).foldlM (fun streamMap i =>
        data[kOpusHeaderStreamMapOffset + i]?.map (streamMap.setIfInBounds i)) streamMap =
      some streamMap' ∧ streamMap'.toList.take n = streams.take n := by
  induction n with
  | zero => exact ⟨streamMap, rfl, rfl⟩
  | succ n ih =>
    obtain ⟨streamMap₁, hfold, htake⟩ := ih (by omega) (fun i hi => hread i (by omega)) (by omega)
    have hget : data[kOpusHeaderStreamMapOffset + n]? = some streams[n] :=
      (hread n (by omega)).trans (List.getElem?_eq_getElem hlength)
    refine ⟨streamMap₁.setIfInBounds n streams[n], ?_, ?_⟩
    · rw [List.range_succ, List.foldlM_append, hfold]
      simp [hget]
    · have hroom : n < streamMap₁.toList.length := by
        rw [Vector.length_toList]
        omega
      rw [Vector.toList_setIfInBounds, List.take_add_one, List.take_add_one,
        List.take_set_of_le (Nat.le_refl n), htake, List.getElem?_set_self hroom,
        List.getElem?_eq_getElem hlength]

theorem streams_default (streamMap : Vector (BitVec 8) 8) {n : Nat} (hn : n ≤ 2) :
    ((streamMap.setIfInBounds 0 0).setIfInBounds 1 1).toList.take n = [0, 1].take n := by
  have hlength := streamMap.length_toList
  rw [Vector.toList_setIfInBounds, Vector.toList_setIfInBounds]
  match streamMap.toList, hlength, n, hn with
  | _ :: _ :: _, _, 0, _ => rfl
  | _ :: _ :: _, _, 1, _ => rfl
  | _ :: _ :: _, _, 2, _ => rfl

theorem parsesBack_default (h : Valid header) (hle : header.channels ≤ 2) :
    ParsesBack header (headFields header rate ++ [0]) := by
  intro old
  refine ⟨_, parseOpusHeader_default h hle old, rfl, rfl, rfl, ?_⟩
  have hpos := h.one_le_channels
  have hstreams := streams_default old.streamMap (by omega : header.channels.toNat ≤ 2)
  obtain hc | hc : header.channels = 1 ∨ header.channels = 2 := by omega
  · constructor
    · simp [hc]
    · simp [hc]
    · simp only [hstreams]
      rw [hc]
      decide
  · constructor
    · simp [hc]
    · simp [hc]
    · simp only [hstreams]
      rw [hc]
      decide

theorem parseOpusHeader_mapped (h : Valid header) (hlt : 2 < header.channels) (old : OpusHeader) :
    ∃ streamMap : Vector (BitVec 8) 8,
      streamMap.toList.take header.channels.toNat = channelStreams header ∧
      parseOpusHeader (some (headFields header rate ++ [1] ++ [BitVec.ofInt 8 header.channels] ++ [0] ++
        channelStreams header ++ [0])) old = some (true, {
          channels := header.channels
          channelMapping := 1
          numStreams := header.channels
          numCoupled := 0
          gainDb := header.gainDb
          skipSamples := header.skipSamples
          streamMap }) := by
  obtain ⟨-, hstreams⟩ := channelStreams_some h.one_le_channels h.channels_le
  have hle := h.channels_le
  generalize hdata : headFields header rate ++ [1] ++ [BitVec.ofInt 8 header.channels] ++ [0] ++
    channelStreams header ++ [0] = data
  have hassoc : data = headFields header rate ++ ([1] ++ [BitVec.ofInt 8 header.channels] ++ [0] ++
      channelStreams header ++ [0]) := by
    rw [← hdata]
    simp only [List.append_assoc]
  have hlength : data.length = 22 + header.channels.toNat := by
    rw [hassoc, List.length_append, length_headFields]
    simp [hstreams]
    omega
  have hchannels : data[kOpusHeaderChannelsOffset]? = some (BitVec.ofInt 8 header.channels) := by
    rw [hassoc]
    rfl
  have hmapping : data[kOpusHeaderChannelMappingOffset]? = some 1 := by
    rw [hassoc]
    rfl
  have hnum : data[kOpusHeaderNumStreamsOffset]? = some (BitVec.ofInt 8 header.channels) := by
    rw [hassoc]
    rfl
  have hcoupled : data[kOpusHeaderNumCoupledStreamsOffset]? = some 0 := by
    rw [hassoc]
    rfl
  have hskip : ((readLE16 data kOpusHeaderSkipSamplesOffset).toNat : Int) = header.skipSamples := by
    rw [hassoc, readLE16_skipSamples h.zero_le_skipSamples h.skipSamples_le]
  have hgain : readLE16 data kOpusHeaderGainOffset = header.gainDb := by
    rw [hassoc, readLE16_gainDb]
  have hread : ∀ i < header.channels.toNat,
      data[kOpusHeaderStreamMapOffset + i]? = (channelStreams header)[i]? := by
    intro i hi
    have hfront : (headFields header rate ++ [1] ++ [BitVec.ofInt 8 header.channels] ++ [0]).length =
        kOpusHeaderStreamMapOffset := rfl
    rw [← hdata, List.append_assoc, List.getElem?_append_right (by omega), hfront,
      Nat.add_sub_cancel_left, List.getElem?_append_left (by omega)]
  obtain ⟨streamMap, hfold, htake⟩ := streams_each (by omega) hread (Nat.le_of_eq hstreams.symm)
    old.streamMap
  refine ⟨streamMap, ?_, ?_⟩
  · rw [htake, ← hstreams, List.take_length]
  · simp only [parseOpusHeader, hlength, hchannels, hmapping, kOpusHeaderSize, Option.bind_eq_bind,
      Option.bind_some, toNat_channels h.one_le_channels h.channels_le, if_neg h.channels_ok, hnum,
      hcoupled, hfold, hskip, hgain]
    have hone : ¬((BitVec.toNat (1 : BitVec 8) : Nat) : Int) = 0 := by decide
    have hmap : ¬((22 + header.channels.toNat : Nat) : Int) <
        kOpusHeaderStreamMapOffset + header.channels := by
      rw [kOpusHeaderStreamMapOffset]
      omega
    have hsum : ¬(header.channels + ((BitVec.toNat (0 : BitVec 8) : Nat) : Int) ≠ header.channels) :=
      not_not.mpr (Int.add_zero _)
    rw [if_neg (by omega), if_neg hone, if_neg hmap, if_neg hsum]
    rfl

theorem channelStreams_perm (hpos : 1 ≤ header.channels) (hle : header.channels ≤ 8) :
    ((channelStreams header).map BitVec.toNat).Perm (List.range header.channels.toNat) := by
  have hrows : ∀ n < 8, ((kOpusChannelMap.getD n []).map BitVec.toNat).Perm (List.range (n + 1)) := by
    decide
  have hrow := hrows (header.channels - 1).toNat (by omega)
  rwa [show (header.channels - 1).toNat + 1 = header.channels.toNat by omega] at hrow

/-- The whole of an `OpusHead` is parsed. -/
theorem parsesBack_opusHead (h : Valid header) : ParsesBack header (opusHead header rate) := by
  rw [opusHead]
  split
  · next hlt =>
    intro old
    obtain ⟨streamMap, hstreams, hparse⟩ := parseOpusHeader_mapped h hlt old
    refine ⟨_, hparse, rfl, rfl, rfl, Int.add_zero _, ⟨Int.le_refl 0, ?_⟩, ?_⟩
    · exact Int.le_trans Int.one_nonneg h.one_le_channels
    · simp only [hstreams]
      exact channelStreams_perm h.one_le_channels h.channels_le
  · next hle => exact parsesBack_default h (Int.not_lt.mp hle)

/-! ### What is found -/

variable {data front back body marker : List (BitVec 8)} {found : Bool} {buffers : OpusHeaderBuffers}

/-- A marker with the length of what is behind it. -/
theorem marker_at (hmarker : marker.length = 8) (hsize : body.length < 2 ^ 64)
    (hdata : data = front ++ (marker ++ (digits 8 body.length ++ (body ++ back)))) :
    (data.drop front.length).take aopusMarkerSize = marker ∧
      readLength data (front.length + aopusMarkerSize) = some body.length ∧
      front.length + 16 + body.length ≤ data.length := by
  refine ⟨?_, ?_, ?_⟩
  · rw [hdata, List.drop_left, aopusMarkerSize, List.take_left' hmarker]
  · have hfront : (front ++ marker).length = front.length + aopusMarkerSize := by
      rw [List.length_append, hmarker, aopusMarkerSize]
    rw [hdata, ← List.append_assoc, readLength, load_between hfront (length_digits 8 _),
      Option.map_some, value_digits, Nat.mod_eq_of_lt]
    exact Nat.lt_of_lt_of_eq hsize (by decide)
  · rw [hdata]
    simp only [List.length_append, length_digits, hmarker]
    omega

theorem scan_continues (front : List (BitVec 8)) (hsize : data.length < 2 ^ 64)
    (h : front.length + 16 ≤ data.length) :
    ¬(data.length + (2 ^ 64 - aopusMarkerSize - aopusLengthSize)) % 2 ^ 64 < front.length ∧
      ¬data.length < front.length + aopusMarkerSize := by
  simp only [aopusMarkerSize, aopusLengthSize]
  omega

theorem scanMarkers_end (hsize : data.length < 2 ^ 64) (h : 16 ≤ data.length) :
    scanMarkers data data.length found buffers = some (found, buffers) := by
  rw [scanMarkers, if_pos]
  simp only [aopusMarkerSize, aopusLengthSize]
  omega

theorem scanMarkers_opusHead {i : Nat} (hfront : front.length = i) (hsize : data.length < 2 ^ 64)
    (hbody : aopusOpusheadMinsize ≤ body.length ∧ body.length ≤ aopusOpusheadMaxsize)
    (hdata : data = front ++ (aopusCsdOpusHeaderMarker ++ (digits 8 body.length ++ (body ++ back)))) :
    scanMarkers data i found buffers =
      scanMarkers data (i + 16 + body.length) true
        { buffers with opusHead := some (i + 16, body.length) } := by
  subst hfront
  have hmax : body.length < 2 ^ 64 := Nat.lt_of_le_of_lt hbody.2 (by decide)
  obtain ⟨hmarker, hlength, hroom⟩ := marker_at rfl hmax hdata
  obtain ⟨hbound, hread⟩ := scan_continues front hsize (by omega)
  rw [scanMarkers, if_neg hbound, dif_neg hread]
  simp only [hmarker, hlength, if_true, Option.bind_eq_bind, Option.bind_some]
  rw [if_neg (by omega), if_neg (by simp only [aopusMarkerSize, aopusLengthSize]; omega)]
  rfl

/-- A marker with a number. -/
def numberRecord (marker : List (BitVec 8)) (value : BitVec 64) : List (BitVec 8) :=
  marker ++ digits 8 8 ++ digits 8 value.toNat

theorem number_at {value : BitVec 64} (hmarker : marker.length = 8)
    (hdata : data = front ++ (numberRecord marker value ++ back)) :
    (data.drop front.length).take aopusMarkerSize = marker ∧
      readLength data (front.length + aopusMarkerSize) = some 8 ∧
      front.length + 24 ≤ data.length := by
  have hrecord : data = front ++ (marker ++ (digits 8 (digits 8 value.toNat).length ++
      (digits 8 value.toNat ++ back))) := by
    rw [hdata, numberRecord, length_digits]
    simp only [List.append_assoc]
  have h := marker_at hmarker (by rw [length_digits]; decide) hrecord
  rwa [length_digits] at h

theorem scanMarkers_codecDelay {i : Nat} {value : BitVec 64} (hfront : front.length = i)
    (hsize : data.length < 2 ^ 64)
    (hdata : data = front ++ (numberRecord aopusCsdCodecDelayMarker value ++ back)) :
    scanMarkers data i found buffers =
      scanMarkers data (i + 24) found { buffers with codecDelay := some (i + 16, 8) } := by
  subst hfront
  obtain ⟨hmarker, hlength, hroom⟩ := number_at rfl hdata
  obtain ⟨hbound, hread⟩ := scan_continues front hsize (by omega)
  have hne : aopusCsdCodecDelayMarker ≠ aopusCsdOpusHeaderMarker := by decide
  rw [scanMarkers, if_neg hbound, dif_neg hread]
  simp only [hmarker, hlength, if_neg hne, if_true, Option.bind_eq_bind, Option.bind_some]
  rw [if_neg (not_not.mpr rfl), if_neg (by simp only [aopusMarkerSize, aopusLengthSize]; omega)]
  rfl

theorem scanMarkers_seekPreRoll {i : Nat} {value : BitVec 64} (hfront : front.length = i)
    (hsize : data.length < 2 ^ 64)
    (hdata : data = front ++ (numberRecord aopusCsdSeekPrerollMarker value ++ back)) :
    scanMarkers data i found buffers =
      scanMarkers data (i + 24) found { buffers with seekPreRoll := some (i + 16, 8) } := by
  subst hfront
  obtain ⟨hmarker, hlength, hroom⟩ := number_at rfl hdata
  obtain ⟨hbound, hread⟩ := scan_continues front hsize (by omega)
  have hne : aopusCsdSeekPrerollMarker ≠ aopusCsdOpusHeaderMarker := by decide
  have hne' : aopusCsdSeekPrerollMarker ≠ aopusCsdCodecDelayMarker := by decide
  rw [scanMarkers, if_neg hbound, dif_neg hread]
  simp only [hmarker, hlength, if_neg hne, if_neg hne', if_true, Option.bind_eq_bind,
    Option.bind_some]
  rw [if_neg (not_not.mpr rfl), if_neg (by simp only [aopusMarkerSize, aopusLengthSize]; omega)]
  rfl

/-! ### Both formats -/

theorem length_opusHead (h : Valid header) (rate : Int) :
    (opusHead header rate).length = if 2 < header.channels then 22 + header.channels.toNat else 19 := by
  rw [opusHead]
  split
  · obtain ⟨-, hstreams⟩ := channelStreams_some h.one_le_channels h.channels_le
    simp only [List.length_append, hstreams, length_headFields, List.length_singleton]
    omega
  · rfl

theorem writeOpusHeader_spec (h : Valid header) (rate : Int) (htotal : 21 + header.channels ≤ output.length)
    (hroom : (opusHead header rate).length ≤ output.length) :
    writeOpusHeader header rate output = some (((opusHead header rate).length : Int),
      opusHead header rate ++ List.replicate (output.length - (opusHead header rate).length) 0) := by
  have hlength := length_opusHead h rate
  split at hlength
  · next hlt =>
    have hmapped : opusHead header rate = headFields header rate ++ [1] ++
        [BitVec.ofInt 8 header.channels] ++ [0] ++ channelStreams header ++ [0] := if_pos hlt
    have hzeros : List.replicate (output.length - (21 + header.channels.toNat)) (0 : BitVec 8) =
        [0] ++ List.replicate (output.length - (22 + header.channels.toNat)) 0 := by
      rw [show output.length - (21 + header.channels.toNat) =
        output.length - (22 + header.channels.toNat) + 1 by omega, List.replicate_succ]
      rfl
    rw [writeOpusHeader_mapped hlt h.channels_le htotal, hlength, hmapped, hzeros,
      ← List.append_assoc]
    refine congrArg some (Prod.ext ?_ rfl)
    have hpos := h.one_le_channels
    simp only
    omega
  · next hle =>
    have hdefault : opusHead header rate = headFields header rate ++ [0] := if_neg hle
    rw [writeOpusHeader_default h.one_le_channels (by omega) htotal, hlength, hdefault]
    rfl

theorem writeNumber_spec {value : BitVec 64} {headerLen n : Nat} (hmarker : marker.length = 8)
    (hfront : front.length = headerLen) :
    writeNumber marker value headerLen (front ++ List.replicate (24 + n) 0) =
      some (front ++ numberRecord marker value ++ List.replicate n 0) := by
  refine (store_fill_bind (n := 16 + n) hfront (by omega)).trans ?_
  refine (store_fill_bind (n := 8 + n) (by simp [hfront, hmarker, aopusMarkerSize])
    (by simp; omega)).trans ?_
  refine (store_fill (n := n) (by simp [hfront, hmarker, aopusMarkerSize, aopusLengthSize])
    (by simp)).trans ?_
  simp only [numberRecord, List.append_assoc]

theorem writeNumbers_spec (codecDelay seekPreRoll : BitVec 64) {headerLen n : Nat}
    (hfront : front.length = headerLen) (hpos : 0 < headerLen) :
    (∃ output', writeNumbers codecDelay seekPreRoll headerLen (front ++ List.replicate n 0) =
        some (-1, output')) ∨
      ∃ k, n = 48 + k ∧ writeNumbers codecDelay seekPreRoll headerLen (front ++ List.replicate n 0) =
        some (((headerLen + 48 : Nat) : Int),
          front ++ numberRecord aopusCsdCodecDelayMarker codecDelay ++
            numberRecord aopusCsdSeekPrerollMarker seekPreRoll ++ List.replicate k 0) := by
  have hlength : ∀ value, (numberRecord aopusCsdCodecDelayMarker value).length = 24 := fun value => rfl
  have hroom : ∀ k : Nat, k - aopusMarkerSize - aopusLengthSize - 8 = k - 24 := by
    intro k
    simp only [aopusMarkerSize, aopusLengthSize]
    omega
  simp only [writeNumbers, hroom, List.length_append, List.length_replicate, hfront]
  by_cases hdelay : headerLen + n - 24 < headerLen
  · exact .inl ⟨_, if_pos hdelay⟩
  · have hdelayed : (front ++ numberRecord aopusCsdCodecDelayMarker codecDelay).length =
        headerLen + aopusMarkerSize + aopusLengthSize + 8 := by
      rw [List.length_append, hfront, hlength]
      rfl
    obtain ⟨m, rfl⟩ : ∃ m, n = 24 + m := ⟨n - 24, by omega⟩
    rw [if_neg hdelay, writeNumber_spec rfl hfront, Option.bind_eq_bind, Option.bind_some,
      List.length_append, hdelayed, List.length_replicate]
    by_cases hpreroll : headerLen + aopusMarkerSize + aopusLengthSize + 8 + m - 24 <
        headerLen + aopusMarkerSize + aopusLengthSize + 8
    · exact .inl ⟨_, if_pos hpreroll⟩
    · simp only [aopusMarkerSize, aopusLengthSize] at hpreroll
      obtain ⟨k, rfl⟩ : ∃ k, m = 24 + k := ⟨m - 24, by omega⟩
      refine .inr ⟨k, by omega, ?_⟩
      rw [if_neg (by simp only [aopusMarkerSize, aopusLengthSize]; omega),
        writeNumber_spec rfl hdelayed]
      rfl

/-- The three parts in the unified format. -/
def unifiedCsd (header : OpusHeader) (rate : Int) (codecDelay seekPreRoll : BitVec 64) :
    List (BitVec 8) :=
  aopusCsdOpusHeaderMarker ++ digits 8 (opusHead header rate).length ++ opusHead header rate ++
    numberRecord aopusCsdCodecDelayMarker codecDelay ++
    numberRecord aopusCsdSeekPrerollMarker seekPreRoll

theorem length_unifiedCsd {codecDelay seekPreRoll : BitVec 64} :
    (unifiedCsd header rate codecDelay seekPreRoll).length = 64 + (opusHead header rate).length := by
  simp [unifiedCsd, numberRecord, aopusCsdOpusHeaderMarker, aopusCsdCodecDelayMarker,
    aopusCsdSeekPrerollMarker, aopusCsdMarkerPrefix]
  omega

theorem length_opusHead_le (h : Valid header) (rate : Int) : (opusHead header rate).length ≤ 30 := by
  have hle := h.channels_le
  rw [length_opusHead h]
  split <;> omega

theorem writeOpusHeaders_spec (h : Valid header) (rate : Int) (output : List (BitVec 8))
    (codecDelay seekPreRoll : BitVec 64) :
    (∃ output', writeOpusHeaders header rate output codecDelay seekPreRoll = some (-1, output')) ∨
      ∃ n, 64 + (opusHead header rate).length + n = output.length ∧
        writeOpusHeaders header rate output codecDelay seekPreRoll =
          some (((64 + (opusHead header rate).length : Nat) : Int),
            unifiedCsd header rate codecDelay seekPreRoll ++ List.replicate n 0) := by
  by_cases hmin : output.length < aopusUnifiedCsdMinsize
  · exact .inl ⟨output, if_pos hmin⟩
  · have hsize : 83 ≤ output.length := Nat.le_of_not_lt hmin
    have hle := h.channels_le
    have hbound := length_opusHead_le h rate
    obtain ⟨n, hn⟩ : ∃ n, 16 + (opusHead header rate).length + n = output.length :=
      ⟨output.length - (16 + (opusHead header rate).length), by omega⟩
    have hlabel : aopusCsdOpusHeaderMarker.length = 8 := rfl
    have hstore : store output 0 aopusCsdOpusHeaderMarker =
        some (aopusCsdOpusHeaderMarker ++ output.drop 8) := store_front (by omega)
    have hrest : ((aopusCsdOpusHeaderMarker ++ output.drop 8).drop 16).length = output.length - 16 := by
      simp [hlabel]
      omega
    generalize htail : (aopusCsdOpusHeaderMarker ++ output.drop 8).drop 16 = tail at hrest
    have hwrite : writeOpusHeader header rate tail = _ :=
      writeOpusHeader_spec h rate (by omega) (by omega)
    have htake : (aopusCsdOpusHeaderMarker ++ output.drop 8).take 16 =
        aopusCsdOpusHeaderMarker ++ (output.drop 8).take 8 := by
      rw [List.take_append, hlabel, List.take_of_length_le (by omega)]
    have hlength : store (aopusCsdOpusHeaderMarker ++ ((output.drop 8).take 8 ++
        (opusHead header rate ++ List.replicate n 0))) aopusMarkerSize
          (digits 8 (opusHead header rate).length) =
        some (aopusCsdOpusHeaderMarker ++ (digits 8 (opusHead header rate).length ++
          (opusHead header rate ++ List.replicate n 0))) :=
      store_between hlabel (by simp; omega)
    rw [hrest, show output.length - 16 - (opusHead header rate).length = n by omega] at hwrite
    have hsizes : aopusMarkerSize + aopusLengthSize = 16 := rfl
    have hnonneg : ¬((opusHead header rate).length : Int) < 0 := by omega
    simp only [writeOpusHeaders, if_neg hmin, hstore, Option.bind_eq_bind, Option.bind_some, hsizes,
      htail, hwrite, htake, if_neg hnonneg, Int.toNat_natCast, List.append_assoc, hlength]
    have hfront : (aopusCsdOpusHeaderMarker ++ digits 8 (opusHead header rate).length ++
        opusHead header rate).length = 16 + (opusHead header rate).length := by
      simp only [List.length_append, length_digits, hlabel]
    have hnumbers := writeNumbers_spec codecDelay seekPreRoll hfront (by omega) (n := n)
    simp only [List.append_assoc] at hnumbers
    obtain hshort | ⟨k, rfl, hdone⟩ := hnumbers
    · exact .inl hshort
    · refine .inr ⟨k, by omega, hdone.trans ?_⟩
      simp only [unifiedCsd, List.append_assoc]
      refine congrArg some (Prod.ext ?_ rfl)
      simp only
      omega

theorem getOpusHeaderBuffers_unified (h : Valid header) (rate : Int)
    (codecDelay seekPreRoll : BitVec 64) :
    getOpusHeaderBuffers (unifiedCsd header rate codecDelay seekPreRoll) = some (true, {
      opusHead := some (16, (opusHead header rate).length)
      codecDelay := some (32 + (opusHead header rate).length, 8)
      seekPreRoll := some (56 + (opusHead header rate).length, 8) }) := by
  have hbound := length_opusHead_le h rate
  have hminsize : 19 ≤ (opusHead header rate).length := by
    rw [length_opusHead h]
    split <;> omega
  have hlength : (unifiedCsd header rate codecDelay seekPreRoll).length = _ := length_unifiedCsd
  generalize hdata : unifiedCsd header rate codecDelay seekPreRoll = data at hlength
  have hsize : data.length < 2 ^ 64 := by omega
  have hlegacy : data.take 8 ≠ opusHeadLabel := by
    have hfirst : (unifiedCsd header rate codecDelay seekPreRoll).take 8 = aopusCsdOpusHeaderMarker :=
      rfl
    rw [← hdata, hfirst]
    decide
  have hprefix : data.take 5 = aopusCsdMarkerPrefix := by
    rw [← hdata]
    rfl
  -- the text at each of the three markers
  have hhead : data = [] ++ (aopusCsdOpusHeaderMarker ++ (digits 8 (opusHead header rate).length ++
      (opusHead header rate ++ (numberRecord aopusCsdCodecDelayMarker codecDelay ++
        numberRecord aopusCsdSeekPrerollMarker seekPreRoll)))) := by
    rw [← hdata, unifiedCsd]
    simp only [List.append_assoc, List.nil_append]
  have hdelay : data = (aopusCsdOpusHeaderMarker ++ digits 8 (opusHead header rate).length ++
      opusHead header rate) ++ (numberRecord aopusCsdCodecDelayMarker codecDelay ++
        numberRecord aopusCsdSeekPrerollMarker seekPreRoll) := by
    rw [← hdata, unifiedCsd]
    simp only [List.append_assoc]
  have hpreRoll : data = (aopusCsdOpusHeaderMarker ++ digits 8 (opusHead header rate).length ++
      opusHead header rate ++ numberRecord aopusCsdCodecDelayMarker codecDelay) ++
        (numberRecord aopusCsdSeekPrerollMarker seekPreRoll ++ []) := by
    rw [← hdata, unifiedCsd, List.append_nil]
  have hlabel : aopusCsdOpusHeaderMarker.length = 8 := rfl
  have hrecord : (numberRecord aopusCsdCodecDelayMarker codecDelay).length = 24 := rfl
  rw [getOpusHeaderBuffers, if_neg (by omega), if_neg hlegacy, if_pos hprefix,
    scanMarkers_opusHead List.length_nil hsize ⟨hminsize, Nat.le_trans hbound (by decide)⟩ hhead,
    scanMarkers_codecDelay (by simp only [List.length_append, length_digits, hlabel]) hsize hdelay,
    scanMarkers_seekPreRoll (by simp only [List.length_append, length_digits, hlabel, hrecord])
      hsize hpreRoll]
  have hend : 0 + 16 + (opusHead header rate).length + 24 + 24 = data.length := by omega
  have hoffsets : 0 + 16 + (opusHead header rate).length + 16 = 32 + (opusHead header rate).length ∧
      0 + 16 + (opusHead header rate).length + 24 + 16 = 56 + (opusHead header rate).length := by
    omega
  rw [hend, scanMarkers_end hsize (by omega), hoffsets.1, hoffsets.2]

/-! ### The round trip -/

/-- What is written is within the buffer, and what is found in it is what has been written. -/
def UnifiedRoundTrip (header : OpusHeader) (rate : Int) (output : List (BitVec 8))
    (codecDelay seekPreRoll : BitVec 64) : Prop :=
  ∃ n output', writeOpusHeaders header rate output codecDelay seekPreRoll = some (n, output') ∧
    (0 ≤ n → n ≤ output.length ∧ ∃ head size delay preRoll,
      getOpusHeaderBuffers (output'.take n.toNat) = some (true, {
        opusHead := some (head, size)
        codecDelay := some (delay, 8)
        seekPreRoll := some (preRoll, 8) }) ∧
      (load (output'.take n.toNat) delay 8).map value = some codecDelay.toNat ∧
      (load (output'.take n.toNat) preRoll 8).map value = some seekPreRoll.toNat ∧
      ∃ data, load (output'.take n.toNat) head size = some data ∧ ParsesBack header data)

def BareRoundTrip (header : OpusHeader) (rate : Int) (output : List (BitVec 8)) : Prop :=
  ∃ n output', writeOpusHeader header rate output = some (n, output') ∧
    (0 ≤ n → n ≤ output.length ∧ ∃ head size,
      getOpusHeaderBuffers (output'.take n.toNat) = some (true, { opusHead := some (head, size) }) ∧
      ∃ data, load (output'.take n.toNat) head size = some data ∧ ParsesBack header data)

/-- The parts are where they have been found. -/
theorem load_unifiedCsd (header : OpusHeader) (rate : Int) (codecDelay seekPreRoll : BitVec 64) :
    load (unifiedCsd header rate codecDelay seekPreRoll) 16 (opusHead header rate).length =
        some (opusHead header rate) ∧
      load (unifiedCsd header rate codecDelay seekPreRoll) (32 + (opusHead header rate).length) 8 =
        some (digits 8 codecDelay.toNat) ∧
      load (unifiedCsd header rate codecDelay seekPreRoll) (56 + (opusHead header rate).length) 8 =
        some (digits 8 seekPreRoll.toNat) := by
  have hhead : unifiedCsd header rate codecDelay seekPreRoll =
      (aopusCsdOpusHeaderMarker ++ digits 8 (opusHead header rate).length) ++ (opusHead header rate ++
        (numberRecord aopusCsdCodecDelayMarker codecDelay ++
          numberRecord aopusCsdSeekPrerollMarker seekPreRoll)) := by
    simp only [unifiedCsd, List.append_assoc]
  have hdelay : unifiedCsd header rate codecDelay seekPreRoll =
      (aopusCsdOpusHeaderMarker ++ digits 8 (opusHead header rate).length ++ opusHead header rate ++
        (aopusCsdCodecDelayMarker ++ digits 8 8)) ++ (digits 8 codecDelay.toNat ++
          numberRecord aopusCsdSeekPrerollMarker seekPreRoll) := by
    simp only [unifiedCsd, numberRecord, List.append_assoc]
  have hpreRoll : unifiedCsd header rate codecDelay seekPreRoll =
      (aopusCsdOpusHeaderMarker ++ digits 8 (opusHead header rate).length ++ opusHead header rate ++
        numberRecord aopusCsdCodecDelayMarker codecDelay ++
          (aopusCsdSeekPrerollMarker ++ digits 8 8)) ++ (digits 8 seekPreRoll.toNat ++ []) := by
    simp only [unifiedCsd, numberRecord, List.append_assoc, List.append_nil]
  have hmarkers : aopusCsdOpusHeaderMarker.length = 8 ∧ aopusCsdCodecDelayMarker.length = 8 ∧
      aopusCsdSeekPrerollMarker.length = 8 := ⟨rfl, rfl, rfl⟩
  have hrecord : (numberRecord aopusCsdCodecDelayMarker codecDelay).length = 24 := rfl
  refine ⟨?_, ?_, ?_⟩
  · rw [hhead]
    exact load_between (by simp only [List.length_append, length_digits, hmarkers]) rfl
  · rw [hdelay]
    refine load_between ?_ (length_digits 8 _)
    simp only [List.length_append, length_digits, hmarkers]
    omega
  · rw [hpreRoll]
    refine load_between ?_ (length_digits 8 _)
    simp only [List.length_append, length_digits, hmarkers, hrecord]
    omega

theorem unifiedRoundTrip (h : Valid header) (rate : Int) (output : List (BitVec 8))
    (codecDelay seekPreRoll : BitVec 64) :
    UnifiedRoundTrip header rate output codecDelay seekPreRoll := by
  obtain ⟨output', hshort⟩ | ⟨n, hn, hwrite⟩ :=
    writeOpusHeaders_spec h rate output codecDelay seekPreRoll
  · exact ⟨-1, output', hshort, fun hnonneg => absurd hnonneg (by decide)⟩
  · refine ⟨_, _, hwrite, fun _ => ⟨by omega, ?_⟩⟩
    have htake : (unifiedCsd header rate codecDelay seekPreRoll ++ List.replicate n 0).take
        ((64 + (opusHead header rate).length : Nat) : Int).toNat =
          unifiedCsd header rate codecDelay seekPreRoll := by
      rw [Int.toNat_natCast, List.take_left' length_unifiedCsd]
    rw [htake]
    have hnumber : ∀ v : BitVec 64, value (digits 8 v.toNat) = v.toNat := by
      intro v
      rw [value_digits, Nat.mod_eq_of_lt]
      exact Nat.lt_of_lt_of_eq v.isLt (by decide)
    obtain ⟨hhead, hdelay, hpreRoll⟩ := load_unifiedCsd header rate codecDelay seekPreRoll
    refine ⟨_, _, _, _, getOpusHeaderBuffers_unified h rate codecDelay seekPreRoll, ?_, ?_,
      opusHead header rate, hhead, parsesBack_opusHead h⟩
    · rw [hdelay, Option.map_some, hnumber]
    · rw [hpreRoll, Option.map_some, hnumber]

theorem getOpusHeaderBuffers_opusHead (h : Valid header) (rate : Int) :
    getOpusHeaderBuffers (opusHead header rate) =
      some (true, { opusHead := some (0, (opusHead header rate).length) }) := by
  have hbound := length_opusHead_le h rate
  have hlength := length_opusHead h rate
  have hlabel : (opusHead header rate).take 8 = opusHeadLabel := by
    rw [opusHead]
    split <;> rfl
  have hminsize : 19 ≤ (opusHead header rate).length := by
    split at hlength <;> omega
  have hsizes : aopusOpusheadMinsize = 19 ∧ aopusOpusheadMaxsize = 276 := ⟨rfl, rfl⟩
  rw [getOpusHeaderBuffers, if_neg (by omega), if_pos hlabel, if_neg (by rw [hsizes.1, hsizes.2]; omega)]

/-- The size of a header for more than two channels is one byte more than there has to be room for. -/
theorem bareRoundTrip_iff (h : Valid header) (rate : Int) (output : List (BitVec 8)) :
    BareRoundTrip header rate output ↔
      ¬(2 < header.channels ∧ (output.length : Int) = 21 + header.channels) := by
  have hlength := length_opusHead h rate
  have hpos := h.one_le_channels
  constructor
  · rintro ⟨n, output', hwrite, hright⟩ ⟨hlt, htight⟩
    rw [writeOpusHeader_mapped hlt h.channels_le (by omega)] at hwrite
    cases hwrite
    obtain ⟨hle, -⟩ := hright (by omega)
    omega
  · intro hroom
    by_cases hshort : (output.length : Int) < 21 + header.channels
    · exact ⟨-1, output, writeOpusHeader_short hpos h.channels_le hshort,
        fun hnonneg => absurd hnonneg (by decide)⟩
    · have hfits : (opusHead header rate).length ≤ output.length := by
        split at hlength <;> omega
      refine ⟨_, _, writeOpusHeader_spec h rate (by omega) hfits, fun _ => ⟨by omega, ?_⟩⟩
      rw [Int.toNat_natCast, List.take_left]
      refine ⟨_, _, getOpusHeaderBuffers_opusHead h rate, opusHead header rate, ?_,
        parsesBack_opusHead h⟩
      rw [load, if_pos (by omega), Ring.slice, List.drop_zero, List.take_length]

/-- The unified format is always read back, a header alone unless its buffer has just the room that is
asked for and there are more than two channels. -/
theorem opusRoundTrip_iff (h : Valid header) (rate : Int) (output bare : List (BitVec 8))
    (codecDelay seekPreRoll : BitVec 64) :
    UnifiedRoundTrip header rate output codecDelay seekPreRoll ∧ BareRoundTrip header rate bare ↔
      ¬(2 < header.channels ∧ (bare.length : Int) = 21 + header.channels) := by
  rw [and_iff_right (unifiedRoundTrip h rate output codecDelay seekPreRoll)]
  exact bareRoundTrip_iff h rate bare

/-- Six channels, four streams of which two are coupled. -/
def surround : OpusHeader :=
  { channels := 6, channelMapping := 1, numStreams := 4, numCoupled := 2, gainDb := 0x0100,
    skipSamples := 312, streamMap := #v[0, 4, 1, 2, 3, 5, 0, 0] }

/-- There is room for the header, and then just the 27 bytes that are asked for. -/
theorem opusRoundTrip_surround :
    UnifiedRoundTrip surround 48000 (List.replicate 200 0) 6500000 80000000 ∧
      BareRoundTrip surround 48000 (List.replicate 64 0) ∧
      ¬(UnifiedRoundTrip surround 48000 (List.replicate 200 0) 6500000 80000000 ∧
        BareRoundTrip surround 48000 (List.replicate 27 0)) := by
  have hvalid : Valid surround := ⟨by decide, by decide, by decide, by decide⟩
  have hroom := (opusRoundTrip_iff hvalid 48000 (List.replicate 200 0) (List.replicate 64 0) 6500000
    80000000).mpr (by rw [List.length_replicate]; decide)
  refine ⟨hroom.1, hroom.2, fun hboth => ?_⟩
  have htight := (opusRoundTrip_iff hvalid 48000 _ _ _ _).mp hboth
  rw [List.length_replicate] at htight
  exact htight (by decide)

/-- Three channels in a buffer of 24 bytes: the size is 25. -/
theorem bare_size_too_large :
    (writeOpusHeader { channels := 3 } 48000 (List.replicate 24 0)).map Prod.fst = some 25 ∧
      ¬BareRoundTrip { channels := 3 } 48000 (List.replicate 24 0) := by
  have hsize : (writeOpusHeader { channels := 3 } 48000 (List.replicate 24 0)).map Prod.fst = some 25 := by
    decide
  refine ⟨hsize, ?_⟩
  rintro ⟨n, output', hwrite, hright⟩
  rw [hwrite] at hsize
  obtain rfl : n = 25 := Option.some.inj hsize
  exact absurd (hright (by decide)).1 (by decide)

end MediaFramework.Foundation
