import MediaFramework.Foundation.ABitReader

/-!
# Dimensions of H.264 video

`media/libstagefright/foundation/avc_utils.cpp`. The numbers of the code are those of C++: `unsigned`
and `int32_t` are 32 bits wide.
-/

namespace MediaFramework.Foundation

/-- The loop of `parseUE` that counts zeros. A reader with fewer bits than passes aborts. -/
def countZeroes : Nat → Nat → BitReading Nat
  | 0, _ => failure
  | passes + 1, numZeroes => do
    if (← getBits 1) = 0 then countZeroes passes (numZeroes + 1)
    else return numZeroes

/-- Shifting 1 by 32 gives 0 here, of which the language says nothing. -/
def parseUE : BitReading (BitVec 32) := fun br => StateT.run (do
  let numZeroes ← countZeroes (br.numBitsLeft + 1) 0
  let x ← getBits numZeroes
  return x + (1#32 <<< numZeroes) - 1) br

def parseSE : BitReading Int := do
  let codeNum ← parseUE
  if codeNum &&& 1 ≠ 0 then return ((codeNum + 1) / 2).toInt
  else return (-(codeNum / 2)).toInt

/-- `delta_scale` between -128 and 127. -/
def cappedDelta (delta_scale : Int) : Int :=
  if delta_scale < -128 then -128 else if 127 < delta_scale then 127 else delta_scale

def parseNextScale (lastScale nextScale : Nat) : BitReading Nat :=
  if nextScale ≠ 0 then do
    let delta_scale ← parseSE
    return (lastScale + (cappedDelta delta_scale + 256).toNat) % 256
  else return nextScale

def skipScalingListFrom : Nat → Nat → Nat → BitReading Unit
  | 0, _, _ => return ()
  | sizeOfScalingList + 1, lastScale, nextScale => do
    let nextScale ← parseNextScale lastScale nextScale
    skipScalingListFrom sizeOfScalingList (if nextScale = 0 then lastScale else nextScale) nextScale

def skipScalingList (sizeOfScalingList : Nat) : BitReading Unit :=
  skipScalingListFrom sizeOfScalingList 8 8

/-- The eight lists from number `i`. -/
def skipScalingLists : List Nat → BitReading Unit
  | [] => return ()
  | i :: is => do
    let present ← getBits 1
    let _ ← (if present ≠ 0 then skipScalingList (if i < 6 then 16 else 64) else return ())
    skipScalingLists is

def isHighProfile (profile_idc : BitVec 32) : Bool :=
  profile_idc = 100 ∨ profile_idc = 110 ∨ profile_idc = 122 ∨ profile_idc = 244 ∨
    profile_idc = 44 ∨ profile_idc = 83 ∨ profile_idc = 86

/-- Returns `chroma_format_idc`. -/
def parseChromaFormat (profile_idc : BitVec 32) : BitReading (BitVec 32) :=
  if isHighProfile profile_idc then do
    let chroma_format_idc ← parseUE
    let _ ← (if chroma_format_idc = 3 then skipBits 1 else return ())
    let _ ← parseUE
    let _ ← parseUE
    skipBits 1
    let seq_scaling_matrix_present_flag ← getBits 1
    let _ ← (if seq_scaling_matrix_present_flag ≠ 0 then skipScalingLists (List.range 8) else return ())
    return chroma_format_idc
  else return 1

def skipUEs : Nat → BitReading Unit
  | 0 => return ()
  | count + 1 => do
    let _ ← parseUE
    skipUEs count

def skipPicOrderCnt : BitReading Unit := do
  let pic_order_cnt_type ← parseUE
  if pic_order_cnt_type = 0 then
    let _ ← parseUE
    return ()
  else if pic_order_cnt_type = 1 then
    let _ ← getBits 1
    let _ ← parseUE
    let _ ← parseUE
    let num_ref_frames_in_pic_order_cnt_cycle ← parseUE
    skipUEs num_ref_frames_in_pic_order_cnt_cycle.toNat
  else return ()

/-- `size` without `(first + second) * unit`, or 0 on an overflow. -/
def crop (size first second unit : BitVec 32) : BitVec 32 :=
  if 2 ^ 32 ≤ first.toNat + second.toNat then 0
  else if 2 ^ 32 ≤ (first + second).toNat * unit.toNat then 0
  else
    let cropped := size.toInt - ((first + second) * unit).toNat
    if cropped < -2 ^ 31 ∨ 2 ^ 31 ≤ cropped then 0
    else if cropped < 0 then 0
    else BitVec.ofInt 32 cropped

def cropUnits (chroma_format_idc frame_mbs_only_flag : BitVec 32) : BitVec 32 × BitVec 32 :=
  if chroma_format_idc = 0 then (1, 2 - frame_mbs_only_flag)
  else
    let subWidthC := if chroma_format_idc = 3 then 1 else 2
    let subHeightC := if chroma_format_idc = 1 then 2 else 1
    (subWidthC, subHeightC * (2 - frame_mbs_only_flag))

/-- Returns the width and the height. -/
def parseCropping (chroma_format_idc frame_mbs_only_flag width height : BitVec 32) :
    BitReading (BitVec 32 × BitVec 32) := do
  if (← getBits 1) ≠ 0 then
    let frame_crop_left_offset ← parseUE
    let frame_crop_right_offset ← parseUE
    let frame_crop_top_offset ← parseUE
    let frame_crop_bottom_offset ← parseUE
    let units := cropUnits chroma_format_idc frame_mbs_only_flag
    return (crop width frame_crop_left_offset frame_crop_right_offset units.1,
      crop height frame_crop_top_offset frame_crop_bottom_offset units.2)
  else return (width, height)

def kFixedSARs : List (BitVec 32 × BitVec 32) :=
  [(0, 0), (1, 1), (12, 11), (10, 11), (16, 11), (40, 33), (24, 11), (20, 11), (32, 11), (80, 33),
    (18, 11), (15, 11), (64, 33), (160, 99), (4, 3), (3, 2), (2, 1)]

def parseAspectRatio : BitReading (BitVec 32 × BitVec 32) := do
  if (← getBits 1) ≠ 0 then
    if (← getBits 1) ≠ 0 then
      let aspect_ratio_idc ← getBits 8
      if aspect_ratio_idc = 255 then
        let sar_width ← getBits 16
        let sar_height ← getBits 16
        return (sar_width, sar_height)
      else if 0 < aspect_ratio_idc.toNat then
        return kFixedSARs.getD aspect_ratio_idc.toNat (0, 0)
      else return (0, 0)
    else return (0, 0)
  else return (0, 0)

structure Dimensions where
  width : BitVec 32
  height : BitVec 32
  sarWidth : BitVec 32
  sarHeight : BitVec 32
  deriving DecidableEq

def parseDimensions : BitReading Dimensions := do
  let profile_idc ← getBits 8
  skipBits 16
  let _ ← parseUE
  let chroma_format_idc ← parseChromaFormat profile_idc
  let _ ← parseUE
  skipPicOrderCnt
  let _ ← parseUE
  let _ ← getBits 1
  let pic_width_in_mbs_minus1 ← parseUE
  let pic_height_in_map_units_minus1 ← parseUE
  let frame_mbs_only_flag ← getBits 1
  let width := pic_width_in_mbs_minus1 * 16 + 16
  let height := (2 - frame_mbs_only_flag) * (pic_height_in_map_units_minus1 * 16 + 16)
  let _ ← (if frame_mbs_only_flag = 0 then getBits 1 else return 0)
  let _ ← getBits 1
  let (width, height) ← parseCropping chroma_format_idc frame_mbs_only_flag width height
  let (sarWidth, sarHeight) ← parseAspectRatio
  return ⟨width, height, sarWidth, sarHeight⟩

/-- The bytes of the unit are not read otherwise than they stand. -/
def FindAVCDimensions (seqParamSet : List (BitVec 8)) : Option Dimensions :=
  (parseDimensions { mData := seqParamSet.tail }).map Prod.fst

end MediaFramework.Foundation
