import MediaFramework.Foundation.Rbsp
import Mathlib.Algebra.Ring.Nat

/-!
# The reservoir of the NAL unit reader

The reader refills its reservoir four payload bytes at a time, and what is left of the payload
is the reservoir followed by the payload of the rest of the buffer. A refill that finds nothing
but an emulation prevention byte shifts the reservoir by its width.
-/

namespace MediaFramework.Foundation

open Bits

namespace NALBitReader

/-! ### Refilling the reservoir -/

theorem isEmulationPreventionByte_ofNat (zeros : Nat) (byte : BitVec 8) :
    isEmulationPreventionByte (BitVec.ofNat 32 zeros) byte ↔ counted zeros ∧ byte = 3 := by
  simp [isEmulationPreventionByte, counted]

theorem countZeros_ofNat (zeros : Nat) (byte : BitVec 8) :
    countZeros (BitVec.ofNat 32 zeros) byte = BitVec.ofNat 32 (zerosBefore zeros byte) := by
  rw [countZeros, zerosBefore]
  split
  · rw [BitVec.ofNat_add]
    rfl
  · rfl

/-- What the loop of `fillReservoir` does from the state `r` with `i` bytes in the reservoir:
`taken` is added to it. -/
structure Filled (r : NALBitReader) (zeros : Nat) (data : List (BitVec 8)) (i : Nat)
    (r' : NALBitReader) (i' : Nat) (zeros' : Nat) (taken : List (BitVec 8)) : Prop where
  numZeros : r'.mNumZeros = BitVec.ofNat 32 zeros'
  strip_eq : strip counted zeros data = taken ++ strip counted zeros' r'.mData
  length : i' = i + taken.length
  le : i' ≤ 4
  full : r'.mData ≠ [] → i' = 4
  ends : r'.mData ≠ [] → (EndsStripped counted zeros' r'.mData ↔ EndsStripped counted zeros data)
  drained : r'.mData = [] → EndsStripped counted zeros data → i' < 4
  reservoir : ∀ bs, r.mReservoir = ofBits 32 bs → r'.mReservoir = ofBits 32 (bs ++ bytesBits taken)
  shifts : r'.shifts = r.shifts ++ List.replicate taken.length 8

theorem Filled.nil (r : NALBitReader) {zeros i : Nat} (data : List (BitVec 8))
    (hzeros : r.mNumZeros = BitVec.ofNat 32 zeros) (hi : i ≤ 4) (hdata : data ≠ [] → i = 4) :
    Filled r zeros data i { r with mData := data } i zeros [] where
  numZeros := hzeros
  strip_eq := rfl
  length := rfl
  le := hi
  full := hdata
  ends := fun _ => Iff.rfl
  drained := by
    rintro rfl ⟨hlast, -⟩
    cases hlast
  reservoir := by
    intro bs hbs
    rw [bytesBits, List.flatMap_nil, List.append_nil]
    exact hbs
  shifts := (List.append_nil _).symm

theorem fillLoop_nil_of_nil {r : NALBitReader} {data : List (BitVec 8)} {i : Nat}
    (h : (r.fillLoop data i).1.mData ≠ []) : data ≠ [] := by
  rintro rfl
  exact h rfl

/-- An emulation prevention byte is passed over. -/
theorem Filled.skip {r r' : NALBitReader} {zeros zeros' i i' : Nat} {byte : BitVec 8}
    {data taken : List (BitVec 8)} (hi : i < 4) (hskip : counted zeros ∧ byte = 3)
    (hr' : r'.mData ≠ [] → data ≠ []) (hnil : data = [] → i' = i)
    (h : Filled { r with mNumZeros := countZeros r.mNumZeros byte } (zerosBefore zeros byte) data i
      r' i' zeros' taken) :
    Filled r zeros (byte :: data) i r' i' zeros' taken where
  numZeros := h.numZeros
  strip_eq := by
    rw [strip, if_pos hskip]
    exact h.strip_eq
  length := h.length
  le := h.le
  full := h.full
  ends := by
    intro hne
    rw [endsStripped_cons (hr' hne)]
    exact h.ends hne
  drained := by
    intro hdone hends
    by_cases hdata : data = []
    · rw [hnil hdata]
      exact hi
    · exact h.drained hdone ((endsStripped_cons hdata).mp hends)
  reservoir := h.reservoir
  shifts := h.shifts

/-- Any other byte goes to the reservoir. -/
theorem Filled.keep {r r' : NALBitReader} {zeros zeros' i i' : Nat} {byte : BitVec 8}
    {data taken : List (BitVec 8)} (hkeep : ¬(counted zeros ∧ byte = 3))
    (hr' : r'.mData ≠ [] → data ≠ [])
    (h : Filled { r with
        mNumZeros := countZeros r.mNumZeros byte
        mReservoir := (r.mReservoir <<< 8) ||| byte.setWidth 32
        shifts := r.shifts ++ [8] } (zerosBefore zeros byte) data (i + 1) r' i' zeros' taken) :
    Filled r zeros (byte :: data) i r' i' zeros' (byte :: taken) where
  numZeros := h.numZeros
  strip_eq := by
    rw [strip, if_neg hkeep, h.strip_eq, List.cons_append]
  length := by
    rw [h.length, List.length_cons]
    omega
  le := h.le
  full := h.full
  ends := by
    intro hne
    rw [endsStripped_cons (hr' hne)]
    exact h.ends hne
  drained := by
    intro hdone hends
    by_cases hdata : data = []
    · subst hdata
      exact absurd (endsStripped_singleton.mp hends) hkeep
    · exact h.drained hdone ((endsStripped_cons hdata).mp hends)
  reservoir := by
    intro bs hbs
    rw [h.reservoir (bs ++ topBits 8 byte) (by rw [ofBits_append_word, hbs]), List.append_assoc]
    rfl
  shifts := by
    rw [h.shifts, List.length_cons, List.replicate_succ, List.append_assoc, List.singleton_append]

theorem filled (r : NALBitReader) (zeros : Nat) (data : List (BitVec 8)) (i : Nat)
    (hzeros : r.mNumZeros = BitVec.ofNat 32 zeros) (hi : i ≤ 4) :
    ∃ zeros' taken, Filled r zeros data i (r.fillLoop data i).1 (r.fillLoop data i).2 zeros'
      taken := by
  induction data generalizing r zeros i with
  | nil => exact ⟨zeros, [], Filled.nil r [] hzeros hi fun h => absurd rfl h⟩
  | cons byte data ih =>
    by_cases hlt : i < 4
    · have hcount := countZeros_ofNat zeros byte
      rw [← hzeros] at hcount
      by_cases hskip : isEmulationPreventionByte r.mNumZeros byte
      · rw [fillLoop, if_pos hlt]
        dsimp only
        rw [if_pos hskip]
        obtain ⟨zeros', taken, h⟩ := ih { r with mNumZeros := countZeros r.mNumZeros byte }
          (zerosBefore zeros byte) i hcount hi
        rw [hzeros] at hskip
        refine ⟨zeros', taken, h.skip hlt ((isEmulationPreventionByte_ofNat _ _).mp hskip)
          fillLoop_nil_of_nil ?_⟩
        rintro rfl
        rfl
      · rw [fillLoop, if_pos hlt]
        dsimp only
        rw [if_neg hskip]
        obtain ⟨zeros', taken, h⟩ := ih { r with
          mNumZeros := countZeros r.mNumZeros byte
          mReservoir := (r.mReservoir <<< 8) ||| byte.setWidth 32
          shifts := r.shifts ++ [8] } (zerosBefore zeros byte) (i + 1) hcount hlt
        rw [hzeros] at hskip
        exact ⟨zeros', byte :: taken,
          h.keep ((isEmulationPreventionByte_ofNat _ _).not.mp hskip) fillLoop_nil_of_nil⟩
    · rw [fillLoop, if_neg hlt]
      exact ⟨zeros, [], Filled.nil r (byte :: data) hzeros hi fun _ => by omega⟩

/-! ### What remains to be read -/

/-- The number of bits to read in all. -/
def numBits (enough : Nat → Bool) (data : List (BitVec 8)) : Nat :=
  8 * (strip enough 0 data).length

/-- With `rem` bits to go, a read of `n` bits shifts the reservoir by its whole width: it takes
all of a full reservoir, or it finds only an emulation prevention byte at the end. -/
def ShiftsOut (enough : Nat → Bool) (data : List (BitVec 8)) (rem n : Nat) : Prop :=
  (32 ≤ n ∧ 32 ≤ rem ∧ 32 ∣ numBits enough data - rem) ∨
    EndsStripped enough 0 data ∧ 32 ∣ numBits enough data ∧ rem < n

def ShiftsBelow (r : NALBitReader) : Prop := ∀ s ∈ r.shifts, s < 32

/-- The reader was made for `data` and has `bs` to go. It refills four bytes at a time, so what
is left to refill from starts at a multiple of 32 bits. -/
structure Reading (data : List (BitVec 8)) (r : NALBitReader) (bs : List Bool) (zeros : Nat) :
    Prop where
  numZeros : r.mNumZeros = BitVec.ofNat 32 zeros
  bits : bs = topBits r.mNumBitsLeft r.mReservoir ++ bytesBits (strip counted zeros r.mData)
  fits : r.mNumBitsLeft ≤ 32
  within : bs.length ≤ numBits counted data
  aligned : r.mData ≠ [] → 32 ∣ numBits counted data - bs.length + r.mNumBitsLeft
  ends : r.mData ≠ [] → (EndsStripped counted zeros r.mData ↔ EndsStripped counted 0 data)
  drained : r.mData = [] → EndsStripped counted 0 data → 32 ∣ numBits counted data → ¬r.ShiftsBelow

variable {data : List (BitVec 8)} {r r' : NALBitReader} {bs : List Bool} {zeros n : Nat}

theorem Reading.length (h : Reading data r bs zeros) :
    bs.length = r.mNumBitsLeft + 8 * (strip counted zeros r.mData).length := by
  rw [h.bits, List.length_append, length_topBits, length_bytesBits]

theorem Reading.fresh (data : List (BitVec 8)) :
    Reading data { mData := data } (bytesBits (strip counted 0 data)) 0 where
  numZeros := rfl
  bits := rfl
  fits := Nat.zero_le 32
  within := by rw [length_bytesBits, numBits]
  aligned := by
    intro _
    rw [length_bytesBits, numBits, Nat.sub_self]
    exact Nat.dvd_zero 32
  ends := fun _ => Iff.rfl
  drained := by
    rintro hnil ⟨hlast, -⟩
    have hdata : data = [] := hnil
    rw [hdata] at hlast
    cases hlast

/-- Taking bits off a reservoir that has them. -/
theorem Reading.take (h : Reading data r bs zeros) {m : Nat} (hm : m ≤ r.mNumBitsLeft) :
    Reading data (r.take m) (bs.drop m) zeros ∧ topBits m r.mReservoir = bs.take m := by
  have hsplit : bs = topBits m r.mReservoir ++ (topBits (r.mNumBitsLeft - m) (r.mReservoir <<< m) ++
      bytesBits (strip counted zeros r.mData)) := by
    rw [h.bits, topBits_split hm, List.append_assoc]
  have hdrop : bs.drop m = topBits (r.mNumBitsLeft - m) (r.mReservoir <<< m) ++
      bytesBits (strip counted zeros r.mData) := by
    rw [hsplit, List.drop_left' (length_topBits _ _)]
  have htake : bs.take m = topBits m r.mReservoir := by
    rw [hsplit, List.take_left' (length_topBits _ _)]
  have hlen := h.length
  have hwithin := h.within
  refine ⟨⟨h.numZeros, hdrop, ?_, ?_, ?_, h.ends, ?_⟩, htake.symm⟩
  · exact Nat.le_trans (Nat.sub_le _ _) h.fits
  · exact Nat.le_trans (List.drop_sublist m bs).length_le hwithin
  · intro hne
    have haligned := h.aligned hne
    show 32 ∣ numBits counted data - (bs.drop m).length + (r.mNumBitsLeft - m)
    rw [List.length_drop]
    have hsame : numBits counted data - (bs.length - m) + (r.mNumBitsLeft - m) =
        numBits counted data - bs.length + r.mNumBitsLeft := by omega
    rwa [hsame]
  · intro hnil hends hdvd hbelow
    refine h.drained hnil hends hdvd fun s hs => hbelow s ?_
    exact List.mem_append_left _ hs

/-- The outcomes of a refill with bits missing. -/
inductive Refilled (data : List (BitVec 8)) (r : NALBitReader) (bs : List Bool) :
    NALBitReader → Bool → Prop
  /-- There was no data. -/
  | failed {r' : NALBitReader} {zeros : Nat} (hbs : bs = []) (hdata : r.mData = [])
      (hreading : Reading data r' [] zeros) (hleft : r'.mNumBitsLeft = 0)
      (hshifts : r'.shifts = r.shifts) : Refilled data r bs r' false
  /-- There are bits to take. -/
  | some {r' : NALBitReader} {zeros : Nat} (hreading : Reading data r' bs zeros)
      (hleft : 0 < r'.mNumBitsLeft)
      (hfull : r'.mNumBitsLeft = 32 ↔ 32 ≤ bs.length ∧ 32 ∣ numBits counted data - bs.length)
      (hshifts : r'.ShiftsBelow ↔ r.ShiftsBelow) : Refilled data r bs r' true
  /-- The data was an emulation prevention byte. -/
  | empty {r' : NALBitReader} {zeros : Nat} (hbs : bs = []) (hdata : r'.mData = [])
      (hreading : Reading data r' [] zeros) (hleft : r'.mNumBitsLeft = 0)
      (hends : EndsStripped counted 0 data) (hdvd : 32 ∣ numBits counted data)
      (hshifts : ¬r'.ShiftsBelow) : Refilled data r bs r' true

/-- The reservoir after `fillReservoir`, with `i` bytes in it. -/
def filledWith (r : NALBitReader) (i : Nat) : NALBitReader :=
  { r with
    mNumBitsLeft := 8 * i
    mReservoir := r.mReservoir <<< (32 - 8 * i)
    shifts := r.shifts ++ [32 - 8 * i] }

theorem Filled.reading {zeros' i : Nat} {taken : List (BitVec 8)} (h : Reading data r bs zeros)
    (hleft : r.mNumBitsLeft = 0) (hdata : r.mData ≠ [])
    (hf : Filled { r with mReservoir := 0 } zeros r.mData 0 r' i zeros' taken) :
    Reading data (r'.filledWith i) bs zeros' := by
  have hi : i = taken.length := by rw [hf.length, Nat.zero_add]
  have hle := hf.le
  have haligned := h.aligned hdata
  have hbits : bs = bytesBits taken ++ bytesBits (strip counted zeros' r'.mData) := by
    rw [h.bits, hleft, topBits_zero, List.nil_append, hf.strip_eq, bytesBits_append]
  have hfront : topBits (8 * i) (r'.mReservoir <<< (32 - 8 * i)) = bytesBits taken := by
    have htaken := length_bytesBits taken
    rw [← hi] at htaken
    rw [hf.reservoir [] ofBits_nil.symm, List.nil_append, ← htaken]
    exact topBits_ofBits (by omega)
  have hlen : bs.length = 8 * i + 8 * (strip counted zeros' r'.mData).length := by
    rw [hbits, List.length_append, length_bytesBits, length_bytesBits, hi]
  refine ⟨hf.numZeros, ?_, ?_, h.within, ?_, fun hne => (hf.ends hne).trans (h.ends hdata), ?_⟩
  · rw [hbits, ← hfront]
    rfl
  · show 8 * i ≤ 32
    omega
  · intro hne
    have hfull := hf.full hne
    show 32 ∣ numBits counted data - bs.length + 8 * i
    omega
  · intro hnil hends hdvd hbelow
    have hlt := hf.drained hnil ((h.ends hdata).mpr hends)
    have hshift := hbelow (32 - 8 * i) (List.mem_append_right _ (List.mem_singleton_self _))
    have hrest : strip counted zeros' r'.mData = [] := by
      rw [show r'.mData = [] from hnil, strip]
    have hwithin := h.within
    rw [hrest, List.length_nil] at hlen
    omega

theorem Reading.fillReservoir (h : Reading data r bs zeros) (hleft : r.mNumBitsLeft = 0)
    (hdata : r.mData ≠ []) :
    Refilled data r bs r.fillReservoir.1 r.fillReservoir.2 := by
  obtain ⟨zeros', taken, hf⟩ := filled { r with mReservoir := 0 } zeros r.mData 0 h.numZeros
    (by decide)
  have heq : r.fillReservoir =
      ((fillLoop { r with mReservoir := 0 } r.mData 0).1.filledWith
        (fillLoop { r with mReservoir := 0 } r.mData 0).2, true) := by
    rw [NALBitReader.fillReservoir, if_neg hdata]
    rfl
  rw [heq]
  generalize fillLoop { r with mReservoir := 0 } r.mData 0 = filled at hf
  obtain ⟨r', i⟩ := filled
  dsimp only at hf ⊢
  have hreading := hf.reading h hleft hdata
  have hi : i = taken.length := by rw [hf.length, Nat.zero_add]
  have hlen : bs.length = 8 * i + 8 * (strip counted zeros' r'.mData).length := hreading.length
  have haligned := h.aligned hdata
  have hwithin := h.within
  have hle := hf.le
  have hdone : i < 4 → (r'.filledWith i).mData = [] := by
    intro hlt
    by_contra hne
    have hfull := hf.full hne
    omega
  have hrest : i < 4 → strip counted zeros' r'.mData = [] := by
    intro hlt
    rw [show r'.mData = [] from hdone hlt, strip]
  by_cases hzero : i = 0
  · subst hzero
    have htaken : taken = [] := List.length_eq_zero_iff.mp hi.symm
    have hrest := hrest (by decide)
    rw [hrest, List.length_nil] at hlen
    obtain rfl : bs = [] := List.length_eq_zero_iff.mp hlen
    have hnone : strip counted zeros r.mData = [] := by
      rw [hf.strip_eq, htaken, hrest, List.append_nil]
    have hends := (h.ends hdata).mp (endsStripped_of_strip_eq_nil hdata hnone)
    have hdvd : 32 ∣ numBits counted data := by
      rw [hleft] at haligned
      exact haligned
    apply Refilled.empty rfl (hdone (by decide)) hreading rfl hends hdvd
    intro hbelow
    have hshift := hbelow 32 (List.mem_append_right _ (List.mem_singleton_self _))
    exact absurd hshift (by decide)
  · refine .some hreading ?_ ?_ ?_
    · show 0 < 8 * i
      omega
    · show 8 * i = 32 ↔ _
      constructor
      · intro hfull
        omega
      · rintro ⟨hbits, -⟩
        by_contra hne
        rw [hrest (by omega), List.length_nil] at hlen
        omega
    · have hshifts : (r'.filledWith i).shifts =
          r.shifts ++ (List.replicate taken.length 8 ++ [32 - 8 * i]) := by
        rw [filledWith, hf.shifts, List.append_assoc]
      rw [ShiftsBelow, ShiftsBelow, hshifts]
      constructor
      · intro hbelow s hs
        exact hbelow s (List.mem_append_left _ hs)
      · intro hbelow s hs
        obtain hs | hs := List.mem_append.mp hs
        · exact hbelow s hs
        obtain hs | hs := List.mem_append.mp hs
        · rw [List.eq_of_mem_replicate hs]
          decide
        · rw [List.mem_singleton.mp hs]
          omega

theorem Reading.refill (h : Reading data r bs zeros) (hsmall : r.mNumBitsLeft < 32) :
    Refilled data r bs r.refill.1 r.refill.2 := by
  rw [NALBitReader.refill]
  by_cases hleft : r.mNumBitsLeft = 0
  · rw [if_pos hleft]
    by_cases hdata : r.mData = []
    · have hbs : bs = [] := by
        rw [h.bits, hleft, hdata]
        rfl
      rw [NALBitReader.fillReservoir, if_pos hdata]
      subst hbs
      exact .failed rfl hdata ⟨h.numZeros, h.bits, h.fits, h.within, h.aligned, h.ends, h.drained⟩
        hleft rfl
    · exact h.fillReservoir hleft hdata
  · rw [if_neg hleft]
    refine .some h (Nat.pos_of_ne_zero hleft) ?_ Iff.rfl
    -- a reservoir in use is not full, and not at a multiple of 32 bits
    show r.mNumBitsLeft = 32 ↔ _
    constructor
    · intro hfull
      omega
    · rintro ⟨hbits, hdvd⟩
      have hlen := h.length
      by_cases hdata : r.mData = []
      · rw [hdata, strip, List.length_nil] at hlen
        omega
      · have haligned := h.aligned hdata
        omega

end NALBitReader

end MediaFramework.Foundation
