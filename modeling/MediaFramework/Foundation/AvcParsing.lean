import MediaFramework.Foundation.AvcUtils
import MediaFramework.Foundation.SpsSyntax

/-!
# Reading a sequence parameter set

Each part of `FindAVCDimensions` reads the syntax elements that it is about, and no other bit.
-/

namespace MediaFramework.Foundation

open Bits ExpGolomb Consume ABitReader

theorem reads_flag (b : Bool) : Reads Left (getBits 1) (flag b) (· = if b then 1 else 0) := by
  have hbit : ofBits 32 [b] = if b then 1 else 0 := by cases b <;> rfl
  rw [← hbit]
  exact reads_getBits (show [b].length ≤ 32 from Nat.le_of_ble_eq_true rfl)

theorem reads_skip_flag (b : Bool) : Reads Left (skipBits 1) (flag b) fun _ => True :=
  reads_skipBits (show [b].length ≤ 32 from Nat.le_of_ble_eq_true rfl)

theorem reads_word {n : Nat} (hn : n ≤ 32) (x : BitVec n) :
    Reads Left (getBits n) (topBits n x) (· = x.setWidth 32) := by
  have hword : ofBits 32 (topBits n x) = x.setWidth 32 := by
    rw [ofBits_topBits (Nat.le_refl n), Nat.sub_self, BitVec.ushiftRight_zero]
  have hread := reads_getBits (show (topBits n x).length ≤ 32 by rwa [length_topBits])
  rwa [length_topBits, hword] at hread

theorem reads_fixed {n v : Nat} (hn : n ≤ 32) (hv : v < 2 ^ n) :
    Reads Left (getBits n) (fixed n v) (· = BitVec.ofNat 32 v) := by
  have hread := reads_getBits (show (fixed n v).length ≤ 32 by rwa [length_fixed])
  rwa [length_fixed, ofBits_fixed hv] at hread

/-! ### The codes -/

theorem reads_countZeroes (zeros : Nat) {passes numZeroes : Nat} (h : zeros < passes) :
    Reads Left (countZeroes passes numZeroes) (List.replicate zeros false ++ [true])
      (· = numZeroes + zeros) := by
  obtain ⟨passes, rfl⟩ := Nat.exists_eq_add_one_of_ne_zero (Nat.ne_zero_of_lt h)
  induction zeros generalizing passes numZeroes with
  | zero =>
    apply (reads_flag true).last
    rintro bit rfl
    rw [if_neg (by decide)]
    exact Reads.pure rfl
  | succ zeros ih =>
    rw [List.replicate_succ, List.cons_append, ← List.singleton_append]
    apply (reads_flag false).bind
    rintro bit rfl
    rw [if_pos (by rfl)]
    obtain ⟨passes, rfl⟩ := Nat.exists_eq_add_one_of_ne_zero (n := passes) (by omega)
    have hrest := @ih (numZeroes + 1) passes (by omega)
    rwa [Nat.add_right_comm numZeroes 1 zeros] at hrest

theorem ofNat_codeNum {z s v : Nat} (hv : s + 2 ^ z - 1 = v) (hlt : v + 1 < 2 ^ 32) :
    BitVec.ofNat 32 s + (1#32 <<< z) - 1 = BitVec.ofNat 32 v := by
  have hshift : 1#32 <<< z = BitVec.ofNat 32 (2 ^ z) := by
    apply BitVec.eq_of_toNat_eq
    rw [BitVec.toNat_shiftLeft, BitVec.toNat_ofNat, BitVec.toNat_ofNat, Nat.shiftLeft_eq,
      Nat.mod_eq_of_lt (by decide : 1 < 2 ^ 32), Nat.one_mul]
  have hpos : 1 ≤ s + 2 ^ z := Nat.le_add_left_of_le Nat.one_le_two_pow
  rw [hshift, ← BitVec.ofNat_add, ← hv]
  apply BitVec.eq_of_toNat_eq
  rw [BitVec.toNat_sub, BitVec.toNat_ofNat, BitVec.toNat_ofNat]
  show (2 ^ 32 - 1 + _) % 2 ^ 32 = _
  rw [Nat.mod_eq_of_lt (by omega : s + 2 ^ z < 2 ^ 32)]
  omega

theorem reads_parseUE {v : Nat} (hv : v + 1 < 2 ^ 32) :
    Reads Left parseUE (ue v) (· = BitVec.ofNat 32 v) := by
  intro br rest hleft
  have hlength := hleft.length
  have hzeros : zeros v < br.numBitsLeft + 1 := by
    rw [ue, List.length_append, List.length_append, List.length_replicate] at hlength
    omega
  have hbits : ue v = (List.replicate (zeros v) false ++ [true]) ++
      fixed (zeros v) (v + 1 - 2 ^ zeros v) := by
    rw [ue, List.append_assoc, List.singleton_append]
  have hz := zeros_lt hv
  rw [hbits] at hleft
  refine Reads.bind (reads_countZeroes _ hzeros) ?_ br rest hleft
  rintro numZeroes rfl
  rw [Nat.zero_add]
  apply (reads_fixed (by omega) (suffix_lt v)).map
  rintro x rfl
  exact ofNat_codeNum (suffix_add v) hv

theorem reads_ue (v : Ue) : Reads Left parseUE (ue v) (· = BitVec.ofNat 32 v) :=
  reads_parseUE (by omega)

/-- What `parseSE` makes of a code. -/
theorem toInt_codeNum {v : Nat} (hv : v + 1 < 2 ^ 32) :
    (if BitVec.ofNat 32 v &&& 1 ≠ 0 then ((BitVec.ofNat 32 v + 1) / 2).toInt
      else (-(BitVec.ofNat 32 v / 2)).toInt) = signed v := by
  have hnat : (BitVec.ofNat 32 v).toNat = v := by
    rw [BitVec.toNat_ofNat, Nat.mod_eq_of_lt (by omega)]
  have hodd : BitVec.ofNat 32 v &&& 1 ≠ 0 ↔ v % 2 = 1 := by
    rw [ne_eq, BitVec.toNat_eq, BitVec.toNat_and, hnat]
    show ¬v &&& 1 = 0 ↔ _
    rw [Nat.and_one_is_mod]
    omega
  rw [signed]
  by_cases hone : v % 2 = 1
  · rw [if_pos (hodd.mpr hone), if_pos hone]
    have hquotient : ((BitVec.ofNat 32 v + 1) / 2).toNat = (v + 1) / 2 := by
      rw [BitVec.toNat_udiv, BitVec.toNat_add, hnat]
      show (v + 1) % 2 ^ 32 / 2 = _
      rw [Nat.mod_eq_of_lt hv]
    rw [BitVec.toInt_eq_toNat_of_lt (by omega), hquotient]
  · rw [if_neg (hodd.not.mpr hone), if_neg hone]
    have hquotient : (BitVec.ofNat 32 v / 2).toNat = v / 2 := by
      rw [BitVec.toNat_udiv, hnat]
      rfl
    rw [BitVec.toInt_neg, BitVec.toInt_eq_toNat_of_lt (by omega), hquotient,
      Int.bmod_eq_of_le (by omega) (by omega)]

theorem reads_parseSE {v : Int} (hlow : -2 ^ 31 < v) (hhigh : v < 2 ^ 31) :
    Reads Left parseSE (se v) (· = v) := by
  have hlt : codeNum v + 1 < 2 ^ 32 := codeNum_lt hlow hhigh
  have hvalue := toInt_codeNum hlt
  rw [signed_codeNum] at hvalue
  rw [parseSE]
  apply (reads_parseUE hlt).last
  rintro code rfl
  split at hvalue
  · next hodd =>
    rw [if_pos hodd]
    exact Reads.pure hvalue
  · next heven =>
    rw [if_neg heven]
    exact Reads.pure hvalue

theorem reads_se (v : Se) : Reads Left parseUE (se v.val) fun _ => True :=
  (reads_parseUE (codeNum_lt v.2.1 v.2.2)).mono fun _ _ => trivial

/-! ### The parts -/

theorem reads_skipScalingListFrom_ended (size lastScale : Nat) :
    Reads Left (skipScalingListFrom size lastScale 0) [] fun _ => True := by
  induction size generalizing lastScale with
  | zero => exact Reads.pure trivial
  | succ size ih => exact ih lastScale

theorem reads_skipScalingListFrom {size lastScale nextScale : Nat} {deltas : List Int}
    (hnext : nextScale ≠ 0) (h : CodedDeltas lastScale size deltas) :
    Reads Left (skipScalingListFrom size lastScale nextScale) (deltas.flatMap se) fun _ => True := by
  induction size generalizing lastScale nextScale deltas with
  | zero =>
    obtain rfl : deltas = [] := h
    exact Reads.pure trivial
  | succ size ih =>
    cases deltas with
    | nil => exact absurd h id
    | cons delta deltas =>
      obtain ⟨hlow, hhigh, hrest⟩ := h
      have hcapped : cappedDelta delta = delta := by
        rw [cappedDelta, if_neg (by omega), if_neg (by omega)]
      have hscale : (lastScale + (delta + 256).toNat) % 256 =
          ((lastScale + delta + 256) % 256).toNat := by
        omega
      rw [List.flatMap_cons]
      have hscales : Reads Left (parseNextScale lastScale nextScale) (se delta)
          (· = ((lastScale + delta + 256) % 256).toNat) := by
        rw [parseNextScale, if_pos hnext]
        apply (reads_parseSE (by omega) (by omega)).map
        rintro delta_scale rfl
        rw [hcapped, hscale]
      apply hscales.bind
      rintro next rfl
      dsimp only at hrest
      split at hrest
      · next hended =>
        subst hrest
        rw [if_pos hended, hended]
        exact reads_skipScalingListFrom_ended _ _
      · next hgoes =>
        rw [if_neg hgoes]
        exact ih hgoes hrest

theorem reads_skipScalingLists {size : Nat} (lists : List (Option (ScalingList size)))
    {is js : List Nat} {bits : List Bool} (hlength : is.length = lists.length)
    (hsize : ∀ i ∈ is, (if i < 6 then 16 else 64) = size)
    (h : Reads Left (skipScalingLists js) bits fun _ => True) :
    Reads Left (skipScalingLists (is ++ js)) (lists.flatMap listBits ++ bits) fun _ => True := by
  induction lists generalizing is with
  | nil =>
    rw [List.length_eq_zero_iff.mp hlength]
    exact h
  | cons list lists ih =>
    cases is with
    | nil => exact absurd hlength.symm (Nat.succ_ne_zero _)
    | cons i is =>
      obtain ⟨hi, his⟩ := List.forall_mem_cons.mp hsize
      have hmore := ih (Nat.succ.inj hlength) his
      rw [List.flatMap_cons, List.append_assoc]
      cases list with
      | none =>
        apply (reads_flag false).bind
        rintro present rfl
        exact hmore
      | some list =>
        rw [listBits, List.append_assoc]
        apply (reads_flag true).bind
        rintro present rfl
        rw [if_pos (by decide), hi]
        apply (reads_skipScalingListFrom (by decide) list.coded).bind
        rintro _ -
        exact hmore

/-- The eight lists of the loop are all there are. -/
theorem reads_matrix {chroma_format_idc : Fin 4} (matrix : ScalingMatrix chroma_format_idc)
    (h : chroma_format_idc ≠ 3) :
    Reads Left (skipScalingLists (List.range 8)) matrix.bits fun _ => True := by
  have hlast : Reads Left (skipScalingLists ([6, 7] ++ [])) (matrix.lists8x8.flatMap listBits ++ [])
      fun _ => True := by
    refine reads_skipScalingLists _ ?_ (by decide) (Reads.pure trivial)
    rw [matrix.length8x8, if_pos h]
    rfl
  have hrange : List.range 8 = [0, 1, 2, 3, 4, 5] ++ ([6, 7] ++ []) := rfl
  rw [List.append_nil (matrix.lists8x8.flatMap listBits)] at hlast
  rw [hrange, ScalingMatrix.bits]
  exact reads_skipScalingLists matrix.lists4x4 matrix.length4x4.symm (by decide) hlast

theorem isHighProfile_high : ∀ x ∈ highProfiles, isHighProfile (x.setWidth 32) = true := by decide

theorem isHighProfile_plain : ∀ x ∈ plainProfiles, isHighProfile (x.setWidth 32) = false := by decide

theorem ofNat_eq_three (chroma_format_idc : Fin 4) :
    BitVec.ofNat 32 chroma_format_idc = 3 ↔ chroma_format_idc = 3 := by
  have hlt := chroma_format_idc.isLt
  rw [BitVec.toNat_eq, BitVec.toNat_ofNat, Nat.mod_eq_of_lt (by omega), Fin.ext_iff]
  rfl

theorem reads_parseChromaFormat {profile : Profile} (h : ¬profile.HasTwelveLists) :
    Reads Left (parseChromaFormat (profile.profile_idc.setWidth 32)) profile.bits
      (· = BitVec.ofNat 32 profile.chroma_format_idc) := by
  cases profile with
  | plain profile_idc known =>
    rw [parseChromaFormat, Profile.profile_idc, isHighProfile_plain _ known]
    exact Reads.pure rfl
  | high profile_idc known chroma =>
    rw [parseChromaFormat, Profile.profile_idc, isHighProfile_high _ known, if_pos rfl]
    apply (reads_ue (chroma.chroma_format_idc.castLE (by decide))).bind
    rintro chroma_format_idc rfl
    have hseparate := Reads.ite (ofNat_eq_three chroma.chroma_format_idc)
      (fun _ => reads_skip_flag chroma.separate_colour_plane_flag) (fun _ => Reads.pure (a := ()) trivial)
    apply hseparate.bind
    rintro _ -
    apply (reads_ue chroma.bit_depth_luma_minus8).bind
    rintro _ -
    apply (reads_ue chroma.bit_depth_chroma_minus8).bind
    rintro _ -
    apply (reads_skip_flag chroma.qpprime_y_zero_transform_bypass_flag).bind
    rintro _ -
    cases hmatrix : chroma.seq_scaling_matrix with
    | none =>
      apply (reads_flag false).last
      rintro present rfl
      exact Reads.pure rfl
    | some matrix =>
      have height : chroma.chroma_format_idc ≠ 3 := by
        intro hthree
        exact h ⟨hthree, by rw [hmatrix]; rfl⟩
      apply (reads_flag true).bind
      rintro present rfl
      rw [if_pos (by decide)]
      apply (reads_matrix matrix height).last
      rintro _ -
      exact Reads.pure rfl

theorem reads_skipUEs (offsets : List Se) :
    Reads Left (skipUEs offsets.length) (offsets.flatMap fun offset : Se => se offset.val)
      fun _ => True := by
  induction offsets with
  | nil => exact Reads.pure trivial
  | cons offset offsets ih =>
    rw [List.flatMap_cons]
    apply (reads_se offset).bind
    rintro _ -
    exact ih

theorem reads_skipPicOrderCnt (pic_order_cnt : PicOrderCnt) :
    Reads Left skipPicOrderCnt pic_order_cnt.bits fun _ => True := by
  cases pic_order_cnt with
  | type0 log2_max_pic_order_cnt_lsb_minus4 =>
    apply (reads_ue 0).bind
    rintro type rfl
    rw [if_pos (by rfl)]
    exact (reads_ue log2_max_pic_order_cnt_lsb_minus4).map fun _ _ => trivial
  | type1 always_zero non_ref_pic top_to_bottom_field offset_for_ref_frame few =>
    have hcount : (BitVec.ofNat 32 offset_for_ref_frame.length).toNat =
        offset_for_ref_frame.length := by
      rw [BitVec.toNat_ofNat, Nat.mod_eq_of_lt (by omega)]
    apply (reads_ue 1).bind
    rintro type rfl
    rw [if_neg (by decide), if_pos (by rfl)]
    apply (reads_flag always_zero).bind
    rintro _ -
    apply (reads_se non_ref_pic).bind
    rintro _ -
    apply (reads_se top_to_bottom_field).bind
    rintro _ -
    apply (reads_parseUE (by omega)).bind
    rintro count rfl
    rw [hcount]
    exact reads_skipUEs offset_for_ref_frame
  | type2 =>
    apply (reads_ue 2).last
    rintro type rfl
    rw [if_neg (by decide), if_neg (by decide)]
    exact Reads.pure trivial

/-- The width and the height that `parseCropping` makes. -/
def croppedBy (chroma_format_idc frame_mbs_only_flag width height : BitVec 32) :
    Option FrameCropping → BitVec 32 × BitVec 32
  | none => (width, height)
  | some cropping =>
    let units := cropUnits chroma_format_idc frame_mbs_only_flag
    (crop width (BitVec.ofNat 32 cropping.left) (BitVec.ofNat 32 cropping.right) units.1,
      crop height (BitVec.ofNat 32 cropping.top) (BitVec.ofNat 32 cropping.bottom) units.2)

theorem reads_parseCropping (chroma_format_idc frame_mbs_only_flag width height : BitVec 32)
    (frame_cropping : Option FrameCropping) :
    Reads Left (parseCropping chroma_format_idc frame_mbs_only_flag width height)
      (croppingBits frame_cropping)
      (· = croppedBy chroma_format_idc frame_mbs_only_flag width height frame_cropping) := by
  cases frame_cropping with
  | none =>
    apply (reads_flag false).last
    rintro present rfl
    rw [if_neg (by decide)]
    exact Reads.pure rfl
  | some cropping =>
    apply (reads_flag true).bind
    rintro present rfl
    rw [if_pos (by decide)]
    apply (reads_ue cropping.left).bind
    rintro left rfl
    apply (reads_ue cropping.right).bind
    rintro right rfl
    apply (reads_ue cropping.top).bind
    rintro top rfl
    apply (reads_ue cropping.bottom).map
    rintro bottom rfl
    rfl

/-- The table is that of the standard. -/
theorem kFixedSARs_eq : ∀ i < 2 ^ 8,
    (if 0 < i then kFixedSARs.getD i (0, 0) else (0, 0)) =
      (BitVec.ofNat 32 (sampleAspectRatio.getD i (0, 0)).1,
        BitVec.ofNat 32 (sampleAspectRatio.getD i (0, 0)).2) := by
  decide +kernel

/-- What `parseAspectRatio` makes of a ratio. -/
def ratioWords (ratio : Nat × Nat) : BitVec 32 × BitVec 32 :=
  (BitVec.ofNat 32 ratio.1, BitVec.ofNat 32 ratio.2)

theorem reads_parseAspectRatio (sps : Sps) :
    Reads Left parseAspectRatio (vuiBits sps.vui_parameters) (· = ratioWords sps.ratio) := by
  rw [Sps.ratio]
  cases sps.vui_parameters with
  | none =>
    apply (reads_flag false).last
    rintro present rfl
    exact Reads.pure rfl
  | some aspect_ratio_info =>
    cases aspect_ratio_info with
    | none =>
      apply (reads_flag true).bind
      rintro present rfl
      rw [if_pos (by decide)]
      apply (reads_flag false).last
      rintro present rfl
      exact Reads.pure rfl
    | some ratio =>
      apply (reads_flag true).bind
      rintro present rfl
      rw [if_pos (by decide)]
      apply (reads_flag true).bind
      rintro present rfl
      rw [if_pos (by decide)]
      cases ratio with
      | indicated aspect_ratio_idc known =>
        have hnat : (aspect_ratio_idc.setWidth 32).toNat = aspect_ratio_idc.toNat := by
          rw [BitVec.toNat_setWidth, Nat.mod_eq_of_lt (by omega)]
        have hother : aspect_ratio_idc.setWidth 32 ≠ 255 := by
          intro hsame
          apply known
          rw [BitVec.toNat_eq] at hsame ⊢
          exact hnat.symm.trans hsame
        have htable := kFixedSARs_eq aspect_ratio_idc.toNat aspect_ratio_idc.isLt
        apply (reads_word (by decide) aspect_ratio_idc).last
        rintro idc rfl
        rw [if_neg hother, hnat]
        split at htable
        · next hpos =>
          rw [if_pos hpos]
          exact Reads.pure htable
        · next hzero =>
          rw [if_neg hzero]
          exact Reads.pure htable
      | extended sar_width sar_height =>
        apply (reads_word (by decide) (255 : BitVec 8)).bind
        rintro idc rfl
        rw [if_pos (by decide)]
        apply (reads_word (by decide) sar_width).bind
        rintro width rfl
        apply (reads_word (by decide) sar_height).map
        rintro height rfl
        show _ = (BitVec.ofNat 32 sar_width.toNat, BitVec.ofNat 32 sar_height.toNat)
        rw [BitVec.ofNat_toNat, BitVec.ofNat_toNat]

end MediaFramework.Foundation
