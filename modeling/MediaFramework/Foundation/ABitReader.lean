import MediaFramework.Lib.Bits
import MediaFramework.Lib.Consume
import MediaFramework.Foundation.Rbsp

/-!
# Bit reader

`ABitReader` (`media/libstagefright/foundation/ABitReader.cpp`). The reader hands out the bits of
its data in order. A `CHECK` that fails aborts.
-/

namespace MediaFramework.Foundation

open Bits Consume

/-- `mData` is what is not yet in the reservoir, `mSize` its length. -/
structure ABitReader where
  mData : List (BitVec 8)
  mReservoir : BitVec 32 := 0
  mNumBitsLeft : Nat := 0
  mOverRead : Bool := false
  deriving DecidableEq

abbrev BitReading (α : Type) := StateT ABitReader Option α

namespace ABitReader

/-- One more byte in the reservoir. -/
def shiftIn (mReservoir : BitVec 32) (byte : BitVec 8) : BitVec 32 :=
  mReservoir <<< 8 ||| byte.setWidth 32

/-- The loop takes four bytes, or as many as there are. -/
def fillReservoir (r : ABitReader) : ABitReader × Bool :=
  if r.mData = [] then ({ r with mOverRead := true }, false)
  else
    let i := (r.mData.take 4).length
    let mReservoir := (r.mData.take 4).foldl shiftIn 0
    ({ r with
      mData := r.mData.drop 4
      mNumBitsLeft := 8 * i
      mReservoir := mReservoir <<< (32 - 8 * i) }, true)

def refill (r : ABitReader) : ABitReader × Bool :=
  if r.mNumBitsLeft = 0 then r.fillReservoir else (r, true)

def take (r : ABitReader) (m : Nat) : ABitReader :=
  { r with
    mReservoir := r.mReservoir <<< m
    mNumBitsLeft := r.mNumBitsLeft - m }

/-- The loop of `getBitsGraceful`. Each pass takes a bit at least, so `n` of them are enough. -/
def getBitsLoop : Nat → ABitReader → Nat → BitVec 32 → ABitReader × Option (BitVec 32)
  | 0, r, _, result => (r, some result)
  | passes + 1, r, n, result =>
    if n = 0 then (r, some result)
    else
      match r.refill with
      | (r, false) => (r, none)
      | (r, true) =>
        let m := min n r.mNumBitsLeft
        getBitsLoop passes (r.take m) (n - m) (result <<< m ||| r.mReservoir >>> (32 - m))

def getBitsGraceful (r : ABitReader) (n : Nat) : ABitReader × Option (BitVec 32) :=
  if 32 < n then (r, none) else getBitsLoop n r n 0

def numBitsLeft (r : ABitReader) : Nat := r.mData.length * 8 + r.mNumBitsLeft

end ABitReader

def getBits (n : Nat) : BitReading (BitVec 32) := fun r =>
  match r.getBitsGraceful n with
  | (r, some ret) => some (ret, r)
  | (_, none) => none

/-- The callers here skip at most 32 bits and do not look at the result. -/
def skipBits (n : Nat) : BitReading Unit := fun r => some ((), (r.getBitsGraceful n).1)

namespace ABitReader

/-- The bits that a reader has left. -/
def Left (r : ABitReader) (bs : List Bool) : Prop :=
  bs = topBits r.mNumBitsLeft r.mReservoir ++ bytesBits r.mData ∧ r.mNumBitsLeft ≤ 32

variable {r : ABitReader} {bs : List Bool}

theorem left_mk (data : List (BitVec 8)) : Left { mData := data } (bytesBits data) :=
  ⟨rfl, Nat.zero_le 32⟩

theorem Left.length (h : r.Left bs) : bs.length = r.numBitsLeft := by
  rw [h.1, List.length_append, length_topBits, length_bytesBits, numBitsLeft]
  omega

theorem foldl_shiftIn (bytes : List (BitVec 8)) (bs : List Bool) :
    bytes.foldl shiftIn (ofBits 32 bs) = ofBits 32 (bs ++ bytesBits bytes) := by
  induction bytes generalizing bs with
  | nil => rw [bytesBits, List.flatMap_nil, List.append_nil, List.foldl_nil]
  | cons byte bytes ih =>
    rw [List.foldl_cons, shiftIn, ← ofBits_append_word, ih, List.append_assoc]
    rfl

theorem Left.fillReservoir (h : r.Left bs) (hleft : r.mNumBitsLeft = 0) (hdata : r.mData ≠ []) :
    ∃ r', r.fillReservoir = (r', true) ∧ r'.Left bs ∧ 0 < r'.mNumBitsLeft := by
  have htake : (r.mData.take 4).length ≤ 4 := List.length_take_le _ _
  have hpos : 0 < (r.mData.take 4).length := by
    rw [List.length_take]
    have hlen := List.length_pos_iff.mpr hdata
    omega
  have hbits : 8 * (r.mData.take 4).length = (bytesBits (r.mData.take 4)).length :=
    (length_bytesBits _).symm
  have hreservoir : (r.mData.take 4).foldl shiftIn 0 = ofBits 32 (bytesBits (r.mData.take 4)) := by
    have hfold := foldl_shiftIn (r.mData.take 4) []
    rwa [ofBits_nil] at hfold
  refine ⟨_, by rw [ABitReader.fillReservoir, if_neg hdata], ⟨?_, ?_⟩, ?_⟩
  · rw [h.1, hleft, topBits_zero, List.nil_append]
    dsimp only
    rw [hreservoir, hbits, topBits_ofBits (by omega), ← bytesBits_append, List.take_append_drop]
  · show 8 * (r.mData.take 4).length ≤ 32
    omega
  · show 0 < 8 * (r.mData.take 4).length
    omega

theorem Left.refill (h : r.Left bs) (hbs : bs ≠ []) :
    ∃ r', r.refill = (r', true) ∧ r'.Left bs ∧ 0 < r'.mNumBitsLeft := by
  rw [ABitReader.refill]
  by_cases hleft : r.mNumBitsLeft = 0
  · rw [if_pos hleft]
    apply h.fillReservoir hleft
    intro hdata
    rw [h.1, hleft, hdata] at hbs
    exact hbs rfl
  · rw [if_neg hleft]
    exact ⟨r, rfl, h, Nat.pos_of_ne_zero hleft⟩

theorem Left.take (h : r.Left bs) {m : Nat} (hm : m ≤ r.mNumBitsLeft) :
    topBits m r.mReservoir = bs.take m ∧ (r.take m).Left (bs.drop m) := by
  have hsplit : bs = topBits m r.mReservoir ++
      (topBits (r.mNumBitsLeft - m) (r.mReservoir <<< m) ++ bytesBits r.mData) := by
    rw [h.1, topBits_split hm, List.append_assoc]
  refine ⟨?_, ?_, ?_⟩
  · rw [hsplit, List.take_left' (length_topBits _ _)]
  · rw [hsplit, List.drop_left' (length_topBits _ _)]
    rfl
  · exact Nat.le_trans (Nat.sub_le _ _) h.2

/-- `result` is made of the bits `done`. -/
theorem Left.getBitsLoop {passes n : Nat} (hpasses : n ≤ passes) {r : ABitReader}
    {xs rest : List Bool} (h : r.Left (xs ++ rest)) (hlength : xs.length = n) (done : List Bool) :
    ∃ r', getBitsLoop passes r n (ofBits 32 done) = (r', some (ofBits 32 (done ++ xs))) ∧
      r'.Left rest := by
  induction passes generalizing r n done xs with
  | zero =>
    obtain rfl : xs = [] := List.length_eq_zero_iff.mp (by omega)
    rw [List.append_nil]
    exact ⟨r, rfl, h⟩
  | succ passes ih =>
    rw [ABitReader.getBitsLoop]
    by_cases hn : n = 0
    · obtain rfl : xs = [] := List.length_eq_zero_iff.mp (by omega)
      rw [if_pos hn, List.append_nil]
      exact ⟨r, rfl, h⟩
    · have hne : xs ++ rest ≠ [] := by
        intro hnil
        rw [(List.append_eq_nil_iff.mp hnil).1] at hlength
        exact hn hlength.symm
      obtain ⟨r₁, hrefill, hleft, hpos⟩ := h.refill hne
      rw [if_neg hn, hrefill]
      dsimp only
      generalize hm : min n r₁.mNumBitsLeft = m
      obtain ⟨htop, hrest⟩ := hleft.take (m := m) (by omega)
      rw [List.take_append_of_le_length (by omega)] at htop
      rw [List.drop_append_of_le_length (by omega)] at hrest
      have hfits := hleft.2
      obtain ⟨r₂, hloop, hdone⟩ := ih (n := n - m) (by omega) hrest
        (by rw [List.length_drop, hlength]) (done ++ xs.take m)
      refine ⟨r₂, ?_, hdone⟩
      rw [← ofBits_append_topBits (by omega), htop, hloop, List.append_assoc, List.take_append_drop]

end ABitReader

open ABitReader

theorem reads_getBits {xs : List Bool} (h : xs.length ≤ 32) :
    Reads Left (getBits xs.length) xs (· = ofBits 32 xs) := by
  intro r rest hleft
  obtain ⟨r', hloop, hrest⟩ := hleft.getBitsLoop (Nat.le_refl _) rfl []
  rw [ofBits_nil, List.nil_append] at hloop
  refine ⟨_, r', ?_, rfl, hrest⟩
  rw [getBits, getBitsGraceful, if_neg (by omega), hloop]

theorem reads_skipBits {xs : List Bool} (h : xs.length ≤ 32) :
    Reads Left (skipBits xs.length) xs fun _ => True := by
  intro r rest hleft
  obtain ⟨r', hloop, hrest⟩ := hleft.getBitsLoop (Nat.le_refl _) rfl []
  rw [ofBits_nil, List.nil_append] at hloop
  refine ⟨(), r', ?_, trivial, hrest⟩
  rw [skipBits, getBitsGraceful, if_neg (by omega), hloop]

end MediaFramework.Foundation
