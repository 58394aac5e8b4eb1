import MediaFramework.Foundation.NALBitReader

/-!
# The payload of a NAL unit

The bytes of a NAL unit without the emulation prevention bytes, by the standard and by a counter
of zeros that overflows.
-/

namespace MediaFramework.Foundation

open Bits

/-- The number of zeros right before the next byte. -/
def zerosBefore (zeros : Nat) (byte : BitVec 8) : Nat := if byte = 0 then zeros + 1 else 0

/-- Leave out every `0x03` after `enough` zeros. -/
def strip (enough : Nat → Bool) : Nat → List (BitVec 8) → List (BitVec 8)
  | _, [] => []
  | zeros, byte :: data =>
    if enough zeros ∧ byte = 3 then strip enough (zerosBefore zeros byte) data
    else byte :: strip enough (zerosBefore zeros byte) data

/-- The last byte is one that is left out. -/
def EndsStripped (enough : Nat → Bool) (zeros : Nat) (data : List (BitVec 8)) : Prop :=
  data.getLast? = some 3 ∧ enough (data.dropLast.foldl zerosBefore zeros)

def bytesBits (bytes : List (BitVec 8)) : List Bool := bytes.flatMap (topBits 8)

/-- Two zeros make the next `0x03` an emulation prevention byte. -/
def twoZeros (zeros : Nat) : Bool := 2 ≤ zeros

/-- The raw byte sequence payload. -/
def rbsp (data : List (BitVec 8)) : List (BitVec 8) := strip twoZeros 0 data

/-- What the counter of the reader says of a run of zeros. -/
def counted (zeros : Nat) : Bool := 2 ≤ (BitVec.ofNat 32 zeros).toInt

/-- No `0x03` comes after a run of zeros whose length the counter does not hold. -/
def CountsZeros : Nat → List (BitVec 8) → Prop
  | _, [] => True
  | zeros, byte :: data =>
    (byte = 3 → twoZeros zeros → counted zeros) ∧ CountsZeros (zerosBefore zeros byte) data

section Strip

variable {enough : Nat → Bool} {zeros : Nat} {byte : BitVec 8} {data : List (BitVec 8)}

@[simp]
theorem length_bytesBits (bytes : List (BitVec 8)) :
    (bytesBits bytes).length = 8 * bytes.length := by
  induction bytes with
  | nil => rfl
  | cons byte bytes ih =>
    rw [bytesBits, List.flatMap_cons, List.length_append, ← bytesBits, ih, length_topBits,
      List.length_cons]
    omega

theorem bytesBits_append (bytes bytes' : List (BitVec 8)) :
    bytesBits (bytes ++ bytes') = bytesBits bytes ++ bytesBits bytes' :=
  List.flatMap_append

theorem endsStripped_singleton : EndsStripped enough zeros [byte] ↔ enough zeros ∧ byte = 3 := by
  simp [EndsStripped, and_comm]

theorem endsStripped_cons (h : data ≠ []) :
    EndsStripped enough zeros (byte :: data) ↔
      EndsStripped enough (zerosBefore zeros byte) data := by
  obtain ⟨byte', data, rfl⟩ := List.exists_cons_of_ne_nil h
  simp [EndsStripped, List.getLast?_cons_cons]

/-- If nothing remains of some bytes then the last one is left out. -/
theorem endsStripped_of_strip_eq_nil (hdata : data ≠ []) (h : strip enough zeros data = []) :
    EndsStripped enough zeros data := by
  induction data generalizing zeros with
  | nil => exact absurd rfl hdata
  | cons byte data ih =>
    rw [strip] at h
    split at h
    · next hskip =>
      by_cases hnil : data = []
      · subst hnil
        exact endsStripped_singleton.mpr hskip
      · exact (endsStripped_cons hnil).mpr (ih hnil h)
    · cases h

theorem twoZeros_of_counted (h : counted zeros) : twoZeros zeros := by
  simp only [counted, twoZeros, decide_eq_true_eq] at h ⊢
  by_contra hlt
  obtain rfl | rfl : zeros = 0 ∨ zeros = 1 := by omega
  · exact absurd h (by decide)
  · exact absurd h (by decide)

theorem strip_counted (h : CountsZeros zeros data) :
    strip counted zeros data = strip twoZeros zeros data := by
  induction data generalizing zeros with
  | nil => rfl
  | cons byte data ih =>
    have hsame : (counted zeros ∧ byte = 3) ↔ (twoZeros zeros ∧ byte = 3) :=
      ⟨fun hc => ⟨twoZeros_of_counted hc.1, hc.2⟩, fun ht => ⟨h.1 ht.2 ht.1, ht.2⟩⟩
    simp only [strip, hsame, ih h.2]

/-- A byte that is missed stays. -/
theorem length_strip_le (zeros : Nat) (data : List (BitVec 8)) :
    (strip twoZeros zeros data).length ≤ (strip counted zeros data).length := by
  induction data generalizing zeros with
  | nil => exact Nat.le_refl _
  | cons byte data ih =>
    have hle := ih (zerosBefore zeros byte)
    rw [strip, strip]
    split <;> split
    · exact hle
    · exact Nat.le_succ_of_le hle
    · next hnot hc => exact absurd ⟨twoZeros_of_counted hc.1, hc.2⟩ hnot
    · exact Nat.succ_le_succ hle

theorem length_strip_lt (h : ¬CountsZeros zeros data) :
    (strip twoZeros zeros data).length < (strip counted zeros data).length := by
  induction data generalizing zeros with
  | nil => exact absurd trivial h
  | cons byte data ih =>
    by_cases hrest : CountsZeros (zerosBefore zeros byte) data
    · have hmissed : (twoZeros zeros ∧ byte = 3) ∧ ¬(counted zeros ∧ byte = 3) := by
        have hfirst : ¬(byte = 3 → twoZeros zeros → counted zeros) := fun hf => h ⟨hf, hrest⟩
        simp only [not_forall] at hfirst
        obtain ⟨hbyte, htwo, hnot⟩ := hfirst
        exact ⟨⟨htwo, hbyte⟩, fun hc => hnot hc.1⟩
      rw [strip, if_pos hmissed.1, strip, if_neg hmissed.2]
      exact Nat.lt_succ_of_le (length_strip_le _ _)
    · have hlt := ih hrest
      rw [strip, strip]
      split <;> split
      · exact hlt
      · exact Nat.lt_succ_of_lt hlt
      · next hnot hc => exact absurd ⟨twoZeros_of_counted hc.1, hc.2⟩ hnot
      · exact Nat.succ_lt_succ hlt

/-- The counter agrees after any bytes that are followed by a `0x03`. -/
theorem CountsZeros.last {front : List (BitVec 8)} (h : CountsZeros zeros (front ++ [3]))
    (htwo : twoZeros (front.foldl zerosBefore zeros)) :
    counted (front.foldl zerosBefore zeros) := by
  induction front generalizing zeros with
  | nil => exact h.1 rfl htwo
  | cons byte front ih => exact ih h.2 htwo

theorem endsStripped_counted (h : CountsZeros 0 data) :
    EndsStripped counted 0 data ↔ EndsStripped twoZeros 0 data := by
  constructor
  · rintro ⟨hlast, hcounted⟩
    exact ⟨hlast, twoZeros_of_counted hcounted⟩
  · rintro ⟨hlast, htwo⟩
    obtain ⟨front, rfl⟩ := List.getLast?_eq_some_iff.mp hlast
    rw [List.dropLast_concat] at htwo
    refine ⟨hlast, ?_⟩
    rw [List.dropLast_concat]
    exact h.last htwo

theorem length_strip_le_length (enough : Nat → Bool) (zeros : Nat) (data : List (BitVec 8)) :
    (strip enough zeros data).length ≤ data.length := by
  induction data generalizing zeros with
  | nil => exact Nat.le_refl _
  | cons byte data ih =>
    rw [strip]
    split
    · exact Nat.le_succ_of_le (ih _)
    · exact Nat.succ_le_succ (ih _)

end Strip

end MediaFramework.Foundation
