import MediaFramework.Foundation.Rbsp
import MediaFramework.Lib.Bits

/-!
# Sequence parameter sets

What a sequence parameter set of H.264 says of its pictures, and its syntax up to the sample aspect
ratio. The names are those of the standard.
-/

namespace MediaFramework.Foundation

open Bits ExpGolomb

/-- The values of `ue(v)`. -/
abbrev Ue := Fin 0xFFFFFFFF

/-- The values of `se(v)`. -/
abbrev Se := {v : Int // -2 ^ 31 < v ∧ v < 2 ^ 31}

/-- The differences of a list of `size` scales that are coded after the scale `lastScale`. A scale of
0 ends the list. -/
def CodedDeltas : Nat → Nat → List Int → Prop
  | _, 0, deltas => deltas = []
  | _, _ + 1, [] => False
  | lastScale, size + 1, delta :: deltas =>
    -128 ≤ delta ∧ delta ≤ 127 ∧
      let nextScale := ((lastScale + delta + 256) % 256).toNat
      if nextScale = 0 then deltas = [] else CodedDeltas nextScale size deltas

structure ScalingList (size : Nat) where
  deltas : List Int
  coded : CodedDeltas 8 size deltas

/-- The lists that are present. There are more for 4:4:4 video. -/
structure ScalingMatrix (chroma_format_idc : Fin 4) where
  lists4x4 : List (Option (ScalingList 16))
  lists8x8 : List (Option (ScalingList 64))
  length4x4 : lists4x4.length = 6
  length8x8 : lists8x8.length = if chroma_format_idc ≠ 3 then 2 else 6

structure ChromaSyntax where
  chroma_format_idc : Fin 4
  separate_colour_plane_flag : Bool := false
  bit_depth_luma_minus8 : Ue := 0
  bit_depth_chroma_minus8 : Ue := 0
  qpprime_y_zero_transform_bypass_flag : Bool := false
  seq_scaling_matrix : Option (ScalingMatrix chroma_format_idc) := none

def plainProfiles : List (BitVec 8) := [66, 77, 88]

def highProfiles : List (BitVec 8) := [100, 110, 122, 244, 44, 83, 86]

inductive Profile
  | plain (profile_idc : BitVec 8) (known : profile_idc ∈ plainProfiles)
  | high (profile_idc : BitVec 8) (known : profile_idc ∈ highProfiles) (chroma : ChromaSyntax)

inductive PicOrderCnt
  | type0 (log2_max_pic_order_cnt_lsb_minus4 : Ue)
  | type1 (delta_pic_order_always_zero_flag : Bool)
      (offset_for_non_ref_pic offset_for_top_to_bottom_field : Se) (offset_for_ref_frame : List Se)
      (few : offset_for_ref_frame.length ≤ 255)
  | type2

structure FrameCropping where
  left : Ue
  right : Ue
  top : Ue
  bottom : Ue

inductive AspectRatio
  | indicated (aspect_ratio_idc : BitVec 8) (known : aspect_ratio_idc ≠ 255)
  | extended (sar_width sar_height : BitVec 16)

structure Sps where
  profile : Profile
  constraint_flags : BitVec 8 := 0
  level_idc : BitVec 8
  seq_parameter_set_id : Ue := 0
  log2_max_frame_num_minus4 : Ue := 0
  pic_order_cnt : PicOrderCnt := .type2
  max_num_ref_frames : Ue := 1
  gaps_in_frame_num_value_allowed_flag : Bool := false
  pic_width_in_mbs_minus1 : Ue
  pic_height_in_map_units_minus1 : Ue
  frame_mbs_only_flag : Bool := true
  mb_adaptive_frame_field_flag : Bool := false
  direct_8x8_inference_flag : Bool := true
  frame_cropping : Option FrameCropping := none
  vui_parameters : Option (Option AspectRatio) := none

/-! ### Syntax -/

def flag (b : Bool) : List Bool := [b]

def ScalingList.bits {size : Nat} (list : ScalingList size) : List Bool := list.deltas.flatMap se

/-- A list with its `seq_scaling_list_present_flag`. -/
def listBits {size : Nat} : Option (ScalingList size) → List Bool
  | none => flag false
  | some list => flag true ++ list.bits

def ScalingMatrix.bits {chroma_format_idc : Fin 4} (matrix : ScalingMatrix chroma_format_idc) :
    List Bool :=
  matrix.lists4x4.flatMap listBits ++ matrix.lists8x8.flatMap listBits

def matrixBits {chroma_format_idc : Fin 4} : Option (ScalingMatrix chroma_format_idc) → List Bool
  | none => flag false
  | some matrix => flag true ++ matrix.bits

def ChromaSyntax.bits (chroma : ChromaSyntax) : List Bool :=
  ue chroma.chroma_format_idc ++
    ((if chroma.chroma_format_idc = .last 3 then flag chroma.separate_colour_plane_flag else []) ++
      (ue chroma.bit_depth_luma_minus8 ++ (ue chroma.bit_depth_chroma_minus8 ++
        (flag chroma.qpprime_y_zero_transform_bypass_flag ++ matrixBits chroma.seq_scaling_matrix))))

namespace Profile

def profile_idc : Profile → BitVec 8
  | plain profile_idc _ => profile_idc
  | high profile_idc _ _ => profile_idc

def bits : Profile → List Bool
  | plain _ _ => []
  | high _ _ chroma => chroma.bits

/-- Without the syntax element it is 1. -/
def chroma_format_idc : Profile → Fin 4
  | plain _ _ => 1
  | high _ _ chroma => chroma.chroma_format_idc

def separate_colour_plane_flag : Profile → Bool
  | plain _ _ => false
  | high _ _ chroma => chroma.chroma_format_idc = 3 && chroma.separate_colour_plane_flag

/-- 4:4:4 video with a scaling matrix. -/
def HasTwelveLists : Profile → Prop
  | plain _ _ => False
  | high _ _ chroma => chroma.chroma_format_idc = 3 ∧ chroma.seq_scaling_matrix.isSome

end Profile

def PicOrderCnt.bits : PicOrderCnt → List Bool
  | type0 log2_max_pic_order_cnt_lsb_minus4 => ue 0 ++ ue log2_max_pic_order_cnt_lsb_minus4
  | type1 delta_pic_order_always_zero_flag offset_for_non_ref_pic offset_for_top_to_bottom_field
      offset_for_ref_frame _ =>
    ue 1 ++ (flag delta_pic_order_always_zero_flag ++ (se offset_for_non_ref_pic ++
      (se offset_for_top_to_bottom_field ++ (ue offset_for_ref_frame.length ++
        offset_for_ref_frame.flatMap fun offset : Se => se offset.val))))
  | type2 => ue 2

def croppingBits : Option FrameCropping → List Bool
  | none => flag false
  | some cropping =>
    flag true ++ (ue cropping.left ++ (ue cropping.right ++ (ue cropping.top ++ ue cropping.bottom)))

def AspectRatio.bits : AspectRatio → List Bool
  | indicated aspect_ratio_idc _ => topBits 8 aspect_ratio_idc
  | extended sar_width sar_height =>
    topBits 8 (255 : BitVec 8) ++ (topBits 16 sar_width ++ topBits 16 sar_height)

/-- The beginning of the VUI parameters. -/
def vuiBits : Option (Option AspectRatio) → List Bool
  | none => flag false
  | some none => flag true ++ flag false
  | some (some ratio) => flag true ++ (flag true ++ ratio.bits)

/-- The syntax elements up to the sample aspect ratio. -/
def Sps.bits (sps : Sps) : List Bool :=
  topBits 8 sps.profile.profile_idc ++
    ((topBits 8 sps.constraint_flags ++ topBits 8 sps.level_idc) ++
      (ue sps.seq_parameter_set_id ++ (sps.profile.bits ++ (ue sps.log2_max_frame_num_minus4 ++
        (sps.pic_order_cnt.bits ++ (ue sps.max_num_ref_frames ++
          (flag sps.gaps_in_frame_num_value_allowed_flag ++ (ue sps.pic_width_in_mbs_minus1 ++
            (ue sps.pic_height_in_map_units_minus1 ++ (flag sps.frame_mbs_only_flag ++
              ((if sps.frame_mbs_only_flag then [] else flag sps.mb_adaptive_frame_field_flag) ++
                (flag sps.direct_8x8_inference_flag ++ (croppingBits sps.frame_cropping ++
                  vuiBits sps.vui_parameters)))))))))))))

/-! ### What it means -/

/-- `ChromaArrayType`. -/
def Profile.chromaArrayType (profile : Profile) : Fin 4 :=
  if profile.separate_colour_plane_flag then 0 else profile.chroma_format_idc

/-- `SubWidthC` and `SubHeightC`. -/
def subSampling (chromaArrayType : Fin 4) : Nat × Nat :=
  match chromaArrayType with
  | 1 => (2, 2)
  | 2 => (2, 1)
  | _ => (1, 1)

/-- `SampleAspectRatio` by `aspect_ratio_idc`, 0 where it is not specified. -/
def sampleAspectRatio : List (Nat × Nat) :=
  [(0, 0), (1, 1), (12, 11), (10, 11), (16, 11), (40, 33), (24, 11), (20, 11), (32, 11), (80, 33),
    (18, 11), (15, 11), (64, 33), (160, 99), (4, 3), (3, 2), (2, 1)]

def AspectRatio.ratio : AspectRatio → Nat × Nat
  | indicated aspect_ratio_idc _ => sampleAspectRatio.getD aspect_ratio_idc.toNat (0, 0)
  | extended sar_width sar_height => (sar_width.toNat, sar_height.toNat)

namespace Sps

variable (sps : Sps)

/-- `2 - frame_mbs_only_flag`. -/
def fieldsPerFrame : Nat := if sps.frame_mbs_only_flag then 1 else 2

def codedWidth : Nat := 16 * (sps.pic_width_in_mbs_minus1.val + 1)

def codedHeight : Nat := sps.fieldsPerFrame * (16 * (sps.pic_height_in_map_units_minus1.val + 1))

def cropUnitX : Nat := (subSampling sps.profile.chromaArrayType).1

def cropUnitY : Nat := (subSampling sps.profile.chromaArrayType).2 * sps.fieldsPerFrame

def croppedColumns : Nat :=
  match sps.frame_cropping with
  | none => 0
  | some cropping => sps.cropUnitX * (cropping.left.val + cropping.right.val)

def croppedRows : Nat :=
  match sps.frame_cropping with
  | none => 0
  | some cropping => sps.cropUnitY * (cropping.top.val + cropping.bottom.val)

/-- The width and the height of the pictures that are shown. -/
def width : Int := sps.codedWidth - sps.croppedColumns

def height : Int := sps.codedHeight - sps.croppedRows

def ratio : Nat × Nat :=
  match sps.vui_parameters with
  | some (some ratio) => ratio.ratio
  | _ => (0, 0)

end Sps

/-! ### Emulation prevention -/

/-- The bytes of a NAL unit for a payload: a `0x03` goes before each byte up to `0x03` that comes
after two zeros. -/
def escape : Nat → List (BitVec 8) → List (BitVec 8)
  | _, [] => []
  | zeros, byte :: payload =>
    if twoZeros zeros ∧ byte.toNat ≤ 3 then 3 :: byte :: escape (zerosBefore 0 byte) payload
    else byte :: escape (zerosBefore zeros byte) payload

theorem strip_escape (zeros : Nat) (payload : List (BitVec 8)) :
    strip twoZeros zeros (escape zeros payload) = payload := by
  induction payload generalizing zeros with
  | nil => rfl
  | cons byte payload ih =>
    rw [escape]
    split
    · next hescaped =>
      have hreset : zerosBefore zeros 3 = 0 := if_neg (by decide)
      have hkept : ¬(twoZeros 0 ∧ byte = 3) := fun h => absurd h.1 (by decide)
      rw [strip, if_pos ⟨hescaped.1, rfl⟩, hreset, strip, if_neg hkept, ih]
    · next hplain =>
      have hkept : ¬(twoZeros zeros ∧ byte = 3) := by
        rintro ⟨hzeros, rfl⟩
        exact hplain ⟨hzeros, by decide⟩
      rw [strip, if_neg hkept, ih]

/-- Taking out the emulation prevention bytes gives the payload. -/
theorem rbsp_escape (payload : List (BitVec 8)) : rbsp (escape 0 payload) = payload :=
  strip_escape 0 payload

end MediaFramework.Foundation
