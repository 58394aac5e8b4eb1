import MediaFramework.Foundation.AvcParsing

/-!
# The dimensions of a sequence parameter set

`FindAVCDimensions` reads the bytes of a NAL unit as they stand and knows eight scaling lists. Where
these are the syntax elements of the set, it finds the dimensions of the set, unless the coded width
or height is no `int32_t`.
-/

namespace MediaFramework.Foundation

open Bits ExpGolomb Consume ABitReader

/-- The dimensions that the code makes of the syntax elements of a set. -/
def dimensionsOf (sps : Sps) : Dimensions :=
  let frame_mbs_only_flag : BitVec 32 := if sps.frame_mbs_only_flag then 1 else 0
  let size := croppedBy (BitVec.ofNat 32 sps.profile.chroma_format_idc) frame_mbs_only_flag
    (BitVec.ofNat 32 sps.pic_width_in_mbs_minus1 * 16 + 16)
    ((2 - frame_mbs_only_flag) * (BitVec.ofNat 32 sps.pic_height_in_map_units_minus1 * 16 + 16))
    sps.frame_cropping
  ⟨size.1, size.2, (ratioWords sps.ratio).1, (ratioWords sps.ratio).2⟩

theorem reads_fieldFlag (frame_mbs_only_flag mb_adaptive_frame_field_flag : Bool) :
    Reads Left (if (if frame_mbs_only_flag then 1 else 0 : BitVec 32) = 0 then getBits 1 else pure 0)
      (if frame_mbs_only_flag then [] else flag mb_adaptive_frame_field_flag) fun _ => True := by
  cases frame_mbs_only_flag with
  | true => exact Reads.pure trivial
  | false => exact (reads_flag mb_adaptive_frame_field_flag).mono fun _ _ => trivial

theorem reads_parseDimensions {sps : Sps} (h : ¬sps.profile.HasTwelveLists) :
    Reads Left parseDimensions sps.bits (· = dimensionsOf sps) := by
  apply (reads_word (by decide) sps.profile.profile_idc).bind
  rintro profile_idc rfl
  have hskip : Reads Left (skipBits 16) (topBits 8 sps.constraint_flags ++ topBits 8 sps.level_idc)
      fun _ => True :=
    reads_skipBits (show (topBits 8 sps.constraint_flags ++ topBits 8 sps.level_idc).length ≤ 32 from
      Nat.le_of_ble_eq_true rfl)
  apply hskip.bind
  rintro _ -
  apply (reads_ue sps.seq_parameter_set_id).bind
  rintro _ -
  apply (reads_parseChromaFormat h).bind
  rintro chroma_format_idc rfl
  apply (reads_ue sps.log2_max_frame_num_minus4).bind
  rintro _ -
  apply (reads_skipPicOrderCnt sps.pic_order_cnt).bind
  rintro _ -
  apply (reads_ue sps.max_num_ref_frames).bind
  rintro _ -
  apply (reads_flag sps.gaps_in_frame_num_value_allowed_flag).bind
  rintro _ -
  apply (reads_ue sps.pic_width_in_mbs_minus1).bind
  rintro width rfl
  apply (reads_ue sps.pic_height_in_map_units_minus1).bind
  rintro height rfl
  apply (reads_flag sps.frame_mbs_only_flag).bind
  rintro flag rfl
  apply (reads_fieldFlag _ sps.mb_adaptive_frame_field_flag).bind
  rintro _ -
  apply (reads_flag sps.direct_8x8_inference_flag).bind
  rintro _ -
  apply (reads_parseCropping _ _ _ _ sps.frame_cropping).bind
  rintro size rfl
  apply (reads_parseAspectRatio sps).map
  rintro ratio rfl
  rfl

/-! ### Cropping -/

/-- Both sums and products are those of integers, unless the coded size is no `int32_t`. -/
theorem crop_correct_iff {coded first second unit : Nat} (hfirst : first < 2 ^ 32)
    (hsecond : second < 2 ^ 32) (hunit : 0 < unit) (hunit' : unit < 2 ^ 32)
    (hpos : (0 : Int) < coded - unit * (first + second : Nat))
    (hlt : (coded : Int) - unit * (first + second : Nat) < 2 ^ 31) :
    (crop (BitVec.ofNat 32 coded) (BitVec.ofNat 32 first) (BitVec.ofNat 32 second)
        (BitVec.ofNat 32 unit)).toInt = coded - unit * (first + second : Nat) ↔ coded < 2 ^ 31 := by
  have hle : first + second ≤ unit * (first + second) := Nat.le_mul_of_pos_left _ hunit
  have hproduct : ((unit * (first + second) : Nat) : Int) = unit * (first + second : Nat) := by
    rw [Int.natCast_mul]
  rw [← hproduct] at hpos hlt ⊢
  have hzero : (0 : BitVec 32).toInt = 0 := rfl
  rw [crop, BitVec.toNat_ofNat, BitVec.toNat_ofNat, Nat.mod_eq_of_lt hfirst, Nat.mod_eq_of_lt hsecond]
  by_cases hsum : 2 ^ 32 ≤ first + second
  · rw [if_pos hsum, hzero]
    constructor <;> intro _ <;> omega
  rw [if_neg hsum, ← BitVec.ofNat_add, BitVec.toNat_ofNat, BitVec.toNat_ofNat,
    Nat.mod_eq_of_lt (by omega), Nat.mod_eq_of_lt hunit', Nat.mul_comm (first + second) unit]
  by_cases hfits : 2 ^ 32 ≤ unit * (first + second)
  · rw [if_pos hfits, hzero]
    constructor <;> intro _ <;> omega
  rw [if_neg hfits, ← BitVec.ofNat_mul, Nat.mul_comm (first + second) unit, BitVec.toNat_ofNat,
    Nat.mod_eq_of_lt (by omega)]
  dsimp only
  by_cases hcoded : coded < 2 ^ 31
  · have hint : (BitVec.ofNat 32 coded).toInt = coded := by
      rw [BitVec.toInt_eq_toNat_bmod, BitVec.toNat_ofNat, Nat.mod_eq_of_lt (by omega),
        Int.bmod_eq_of_le (by omega) (by omega)]
    rw [hint, if_neg (by omega), if_neg (by omega), BitVec.toInt_ofInt,
      Int.bmod_eq_of_le (by omega) (by omega)]
    exact ⟨fun _ => hcoded, fun _ => rfl⟩
  · -- the coded size is negative or less than what is cut off
    have hnegative : (BitVec.ofNat 32 coded).toInt - (unit * (first + second) : Nat) < 0 := by
      rw [BitVec.toInt_eq_toNat_bmod, BitVec.toNat_ofNat, Int.bmod_def]
      split <;> omega
    have hnone : ∀ exceeded : Prop, ∀ [Decidable exceeded], (if exceeded then 0
        else if (BitVec.ofNat 32 coded).toInt - (unit * (first + second) : Nat) < 0 then 0
        else BitVec.ofInt 32 ((BitVec.ofNat 32 coded).toInt - (unit * (first + second) : Nat))) =
        (0 : BitVec 32) := by
      intro exceeded _
      rw [if_pos hnegative, ite_self]
    rw [hnone, hzero]
    constructor <;> intro _ <;> omega

theorem ofNat_correct_iff {coded : Nat} (hlt : (coded : Int) < 2 ^ 31) :
    (BitVec.ofNat 32 coded).toInt = coded ↔ coded < 2 ^ 31 := by
  rw [BitVec.toInt_eq_toNat_bmod, BitVec.toNat_ofNat, Nat.mod_eq_of_lt (by omega),
    Int.bmod_eq_of_le (by omega) (by omega)]
  constructor <;> intro _ <;> omega

/-- Separate colour planes are cropped like 4:4:4 video. -/
theorem cropUnits_eq : ∀ (chroma_format_idc : Fin 4) (separate frame_mbs_only_flag : Bool),
    (separate → chroma_format_idc = 3) →
      cropUnits (BitVec.ofNat 32 chroma_format_idc) (if frame_mbs_only_flag then 1 else 0) =
        (BitVec.ofNat 32 (subSampling (if separate then 0 else chroma_format_idc)).1,
          BitVec.ofNat 32 ((subSampling (if separate then 0 else chroma_format_idc)).2 *
            if frame_mbs_only_flag then 1 else 2)) := by
  decide +kernel

theorem subSampling_range : ∀ chromaArrayType : Fin 4,
    0 < (subSampling chromaArrayType).1 ∧ (subSampling chromaArrayType).1 ≤ 2 ∧
      0 < (subSampling chromaArrayType).2 ∧ (subSampling chromaArrayType).2 ≤ 2 := by
  decide

theorem sampleAspectRatio_lt : ∀ i < 2 ^ 8,
    (sampleAspectRatio.getD i (0, 0)).1 < 2 ^ 16 ∧ (sampleAspectRatio.getD i (0, 0)).2 < 2 ^ 16 := by
  decide +kernel

namespace Sps

variable (sps : Sps)

theorem separate_colour_plane_flag_chroma (h : sps.profile.separate_colour_plane_flag) :
    sps.profile.chroma_format_idc = 3 := by
  cases hprofile : sps.profile with
  | plain profile_idc known =>
    rw [hprofile] at h
    exact absurd h Bool.false_ne_true
  | high profile_idc known chroma =>
    rw [hprofile] at h
    exact of_decide_eq_true (Bool.and_eq_true_iff.mp h).1

theorem cropUnits :
    Foundation.cropUnits (BitVec.ofNat 32 sps.profile.chroma_format_idc)
        (if sps.frame_mbs_only_flag then 1 else 0) =
      (BitVec.ofNat 32 sps.cropUnitX, BitVec.ofNat 32 sps.cropUnitY) :=
  cropUnits_eq _ _ _ sps.separate_colour_plane_flag_chroma

theorem fieldsPerFrame_range : 0 < sps.fieldsPerFrame ∧ sps.fieldsPerFrame ≤ 2 := by
  rw [fieldsPerFrame]
  split <;> decide

theorem cropUnitX_range : 0 < sps.cropUnitX ∧ sps.cropUnitX < 2 ^ 32 := by
  have hrange := subSampling_range sps.profile.chromaArrayType
  rw [cropUnitX]
  omega

theorem cropUnitY_range : 0 < sps.cropUnitY ∧ sps.cropUnitY < 2 ^ 32 := by
  have hrange := subSampling_range sps.profile.chromaArrayType
  have hfields := sps.fieldsPerFrame_range
  have hproduct : (subSampling sps.profile.chromaArrayType).2 * sps.fieldsPerFrame ≤ 2 * 2 :=
    Nat.mul_le_mul hrange.2.2.2 hfields.2
  rw [cropUnitY]
  exact ⟨Nat.mul_pos hrange.2.2.1 hfields.1, by omega⟩

theorem codedWidth_word :
    BitVec.ofNat 32 sps.pic_width_in_mbs_minus1 * 16 + 16 = BitVec.ofNat 32 sps.codedWidth := by
  rw [codedWidth, Nat.mul_add, Nat.mul_comm, BitVec.ofNat_add, BitVec.ofNat_mul]
  rfl

theorem codedHeight_word :
    (2 - if sps.frame_mbs_only_flag then 1 else 0) *
        (BitVec.ofNat 32 sps.pic_height_in_map_units_minus1 * 16 + 16) =
      BitVec.ofNat 32 sps.codedHeight := by
  have hfields : (2 - if sps.frame_mbs_only_flag then 1 else 0 : BitVec 32) =
      BitVec.ofNat 32 sps.fieldsPerFrame := by
    rw [fieldsPerFrame]
    cases sps.frame_mbs_only_flag <;> rfl
  rw [codedHeight, hfields, BitVec.ofNat_mul, Nat.mul_add, Nat.mul_comm 16, BitVec.ofNat_add,
    BitVec.ofNat_mul]
  rfl

theorem ratio_lt : sps.ratio.1 < 2 ^ 16 ∧ sps.ratio.2 < 2 ^ 16 := by
  rw [ratio]
  split
  · next ratio _ =>
    cases ratio with
    | indicated aspect_ratio_idc known => exact sampleAspectRatio_lt _ aspect_ratio_idc.isLt
    | extended sar_width sar_height => exact ⟨sar_width.isLt, sar_height.isLt⟩
  · decide

end Sps

/-- The results are the dimensions of the set. -/
structure Dimensions.Shows (d : Dimensions) (sps : Sps) : Prop where
  width : d.width.toInt = sps.width
  height : d.height.toInt = sps.height
  sarWidth : d.sarWidth.toInt = sps.ratio.1
  sarHeight : d.sarHeight.toInt = sps.ratio.2

/-- The width and the height are positive and fit in an `int32_t`. -/
structure Sps.InRange (sps : Sps) : Prop where
  width_pos : 0 < sps.width
  width_lt : sps.width < 2 ^ 31
  height_pos : 0 < sps.height
  height_lt : sps.height < 2 ^ 31

theorem width_correct_iff {sps : Sps} (hpos : 0 < sps.width) (hlt : sps.width < 2 ^ 31) :
    (dimensionsOf sps).width.toInt = sps.width ↔ sps.codedWidth < 2 ^ 31 := by
  obtain ⟨hunit, hunit'⟩ := sps.cropUnitX_range
  simp only [Sps.width, Sps.croppedColumns, dimensionsOf, sps.codedWidth_word] at hpos hlt ⊢
  cases hcropping : sps.frame_cropping with
  | none =>
    simp only [hcropping] at hlt ⊢
    exact ofNat_correct_iff hlt
  | some cropping =>
    simp only [hcropping] at hpos hlt ⊢
    rw [croppedBy, sps.cropUnits]
    exact crop_correct_iff (by omega) (by omega) hunit hunit' hpos hlt

theorem height_correct_iff {sps : Sps} (hpos : 0 < sps.height) (hlt : sps.height < 2 ^ 31) :
    (dimensionsOf sps).height.toInt = sps.height ↔ sps.codedHeight < 2 ^ 31 := by
  obtain ⟨hunit, hunit'⟩ := sps.cropUnitY_range
  simp only [Sps.height, Sps.croppedRows, dimensionsOf, sps.codedHeight_word] at hpos hlt ⊢
  cases hcropping : sps.frame_cropping with
  | none =>
    simp only [hcropping] at hlt ⊢
    exact ofNat_correct_iff hlt
  | some cropping =>
    simp only [hcropping] at hpos hlt ⊢
    rw [croppedBy, sps.cropUnits]
    exact crop_correct_iff (by omega) (by omega) hunit hunit' hpos hlt

theorem dimensionsOf_shows_iff {sps : Sps} (h : sps.InRange) :
    (dimensionsOf sps).Shows sps ↔ sps.codedWidth < 2 ^ 31 ∧ sps.codedHeight < 2 ^ 31 := by
  obtain ⟨hratio, hratio'⟩ := sps.ratio_lt
  have hword : ∀ n < 2 ^ 16, (BitVec.ofNat 32 n).toInt = n := by
    intro n hn
    exact (ofNat_correct_iff (by omega)).mpr (by omega)
  have hwidth := width_correct_iff h.width_pos h.width_lt
  have hheight := height_correct_iff h.height_pos h.height_lt
  constructor
  · intro hshows
    exact ⟨hwidth.mp hshows.width, hheight.mp hshows.height⟩
  · rintro ⟨hw, hh⟩
    exact ⟨hwidth.mpr hw, hheight.mpr hh, hword _ hratio, hword _ hratio'⟩

/-! ### NAL units -/

/-- The payload of the NAL unit begins with the set. -/
def Sps.Encodes (sps : Sps) (nal : List (BitVec 8)) : Prop :=
  ∃ (header : BitVec 8) (payload : List (BitVec 8)),
    nal = header :: escape 0 payload ∧ sps.bits <+: bytesBits payload

/-- The bits up to the sample aspect ratio are the same with the emulation prevention bytes and
without, and there are eight scaling lists at most. -/
def Sps.ReadAsItStands (sps : Sps) (nal : List (BitVec 8)) : Prop :=
  (bytesBits nal.tail).take sps.bits.length = (bytesBits (rbsp nal.tail)).take sps.bits.length ∧
    ¬sps.profile.HasTwelveLists

theorem findAVCDimensions_eq {sps : Sps} {nal : List (BitVec 8)} (hnal : sps.Encodes nal)
    (hread : sps.ReadAsItStands nal) : FindAVCDimensions nal = some (dimensionsOf sps) := by
  obtain ⟨header, payload, rfl, hpayload⟩ := hnal
  obtain ⟨hsame, hlists⟩ := hread
  rw [List.tail_cons, rbsp_escape, ← List.prefix_iff_eq_take.mp hpayload] at hsame
  obtain ⟨rest, hrest⟩ := List.prefix_iff_eq_take.mpr hsame.symm
  have hleft := left_mk (escape 0 payload)
  rw [← hrest] at hleft
  obtain ⟨d, br, hparse, rfl, -⟩ := reads_parseDimensions hlists _ rest hleft
  rw [FindAVCDimensions, List.tail_cons, hparse]
  rfl

/-- Where the set is read as it stands, its dimensions are found unless the coded width or height is
no `int32_t`. -/
theorem findAVCDimensions_shows_iff {sps : Sps} {nal : List (BitVec 8)} (hnal : sps.Encodes nal)
    (hsize : sps.InRange) (hread : sps.ReadAsItStands nal) :
    (∃ d, FindAVCDimensions nal = some d ∧ d.Shows sps) ↔
      sps.codedWidth < 2 ^ 31 ∧ sps.codedHeight < 2 ^ 31 := by
  rw [findAVCDimensions_eq hnal hread, ← dimensionsOf_shows_iff hsize]
  constructor
  · rintro ⟨d, hd, hshows⟩
    rwa [Option.some.inj hd]
  · intro hshows
    exact ⟨_, rfl, hshows⟩

/-- A set for video of 352 columns and 288 rows. -/
def cif : Sps where
  profile := .plain 66 (by decide)
  level_idc := 30
  pic_width_in_mbs_minus1 := 21
  pic_height_in_map_units_minus1 := 17
  vui_parameters := some (some (.indicated 1 (by decide)))

theorem cif_inRange : cif.InRange := ⟨by decide, by decide, by decide, by decide⟩

theorem findAVCDimensions_shows_cif :
    (∃ d, FindAVCDimensions [0x67, 0x42, 0x00, 0x1E, 0xDA, 0x05, 0x82, 0x5B, 0x01, 0x20] = some d ∧
        d.Shows cif) ↔ cif.codedWidth < 2 ^ 31 ∧ cif.codedHeight < 2 ^ 31 :=
  findAVCDimensions_shows_iff
    ⟨0x67, [0x42, 0x00, 0x1E, 0xDA, 0x05, 0x82, 0x5B, 0x01, 0x20], by decide, by decide⟩ cif_inRange
    ⟨by decide, id⟩

/-- The sample aspect ratio is 256 to 1. -/
def wideSamples : Sps := { cif with vui_parameters := some (some (.extended 256 1)) }

/-- An emulation prevention byte is read as part of the height of a sample. -/
theorem emulation_prevention_byte_read :
    wideSamples.Encodes [0x67, 0x42, 0x00, 0x1E, 0xDA, 0x05, 0x82, 0x5B, 0xFF, 0x01, 0x00, 0x00, 0x03,
        0x01, 0x20] ∧ wideSamples.InRange ∧
      ¬∃ d, FindAVCDimensions [0x67, 0x42, 0x00, 0x1E, 0xDA, 0x05, 0x82, 0x5B, 0xFF, 0x01, 0x00, 0x00,
        0x03, 0x01, 0x20] = some d ∧ d.Shows wideSamples := by
  refine ⟨⟨0x67, [0x42, 0x00, 0x1E, 0xDA, 0x05, 0x82, 0x5B, 0xFF, 0x01, 0x00, 0x00, 0x01, 0x20],
    by decide, by decide⟩, ⟨by decide, by decide, by decide, by decide⟩, ?_⟩
  rintro ⟨d, hfind, hshows⟩
  have hread : FindAVCDimensions [0x67, 0x42, 0x00, 0x1E, 0xDA, 0x05, 0x82, 0x5B, 0xFF, 0x01, 0x00,
      0x00, 0x03, 0x01, 0x20] = some ⟨352, 288, 256, 3⟩ := by
    decide +kernel
  rw [hread] at hfind
  obtain rfl := Option.some.inj hfind
  exact absurd hshows.sarHeight (by decide)

/-- 4:4:4 video whose scaling matrix has none of its twelve lists. -/
def fullChroma : Sps :=
  { cif with
    profile := .high 244 (by decide)
      { chroma_format_idc := .last 3
        seq_scaling_matrix := some
          ⟨List.replicate 6 none, List.replicate 6 none, List.length_replicate,
            List.length_replicate⟩ }
    vui_parameters := none }

/-- The last four flags are read as other syntax elements, and the reader runs out of bits. -/
theorem twelve_lists_abort :
    fullChroma.Encodes [0x67, 0xF4, 0x00, 0x1E, 0x91, 0xA0, 0x01, 0x68, 0x16, 0x09, 0x64] ∧
      FindAVCDimensions [0x67, 0xF4, 0x00, 0x1E, 0x91, 0xA0, 0x01, 0x68, 0x16, 0x09, 0x64] = none :=
  ⟨⟨0x67, [0xF4, 0x00, 0x1E, 0x91, 0xA0, 0x01, 0x68, 0x16, 0x09, 0x64], by decide, by decide⟩,
    by decide +kernel⟩

/-- Offsets with many zeros in their codes. -/
def longOffsets : Sps :=
  { cif with
    pic_order_cnt :=
      .type1 false ⟨1, by decide⟩ ⟨1, by decide⟩ [⟨0, by decide⟩, ⟨2097152, by decide⟩] (by decide) }

/-- The dimensions can be right by accident: here the codes after two emulation prevention bytes fall
in step again. -/
theorem misread_shows_dimensions :
    longOffsets.Encodes [0x67, 0x42, 0x00, 0x1E, 0xD1, 0x27, 0x00, 0x00, 0x03, 0x02, 0x00, 0x00, 0x03,
        0x02, 0x05, 0x82, 0x5B, 0x01, 0x20] ∧
      ¬longOffsets.ReadAsItStands [0x67, 0x42, 0x00, 0x1E, 0xD1, 0x27, 0x00, 0x00, 0x03, 0x02, 0x00,
        0x00, 0x03, 0x02, 0x05, 0x82, 0x5B, 0x01, 0x20] ∧
      FindAVCDimensions [0x67, 0x42, 0x00, 0x1E, 0xD1, 0x27, 0x00, 0x00, 0x03, 0x02, 0x00, 0x00, 0x03,
        0x02, 0x05, 0x82, 0x5B, 0x01, 0x20] = some ⟨352, 288, 1, 1⟩ := by
  refine ⟨⟨0x67, [0x42, 0x00, 0x1E, 0xD1, 0x27, 0x00, 0x00, 0x02, 0x00, 0x00, 0x02, 0x05, 0x82, 0x5B,
    0x01, 0x20], by decide, by decide⟩, ?_, by decide +kernel⟩
  rintro ⟨hsame, -⟩
  exact absurd hsame (by decide)

end MediaFramework.Foundation
