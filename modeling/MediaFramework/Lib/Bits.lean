import Mathlib.Data.Nat.Bitwise
import Mathlib.Algebra.Ring.Nat

/-!
# Words as lists of bits

The bits of a word, most significant first: the leading bits of a word as a list, a word made
of a list, how shifts act on them, and codes that are made of bits.
-/

namespace Bits

variable {w : Nat}

/-- The first `k` bits of a word. -/
def topBits (k : Nat) (x : BitVec w) : List Bool := (List.range k).map x.getMsbD

/-- The word whose last bits are those of a list. -/
def ofBits (w : Nat) (bs : List Bool) : BitVec w := (BitVec.ofBoolListBE bs).setWidth w

@[simp]
theorem length_topBits (k : Nat) (x : BitVec w) : (topBits k x).length = k := by
  simp [topBits]

@[simp]
theorem topBits_zero (x : BitVec w) : topBits 0 x = [] := rfl

theorem getElem?_topBits (k : Nat) (x : BitVec w) (i : Nat) :
    (topBits k x)[i]? = if i < k then some (x.getMsbD i) else none := by
  by_cases hi : i < k
  · simp [topBits, hi]
  · simp [topBits, hi]

theorem getLsbD_ofBits (bs : List Bool) (i : Nat) :
    (ofBits w bs).getLsbD i = (decide (i < w) && (decide (i < bs.length) &&
      bs.getD (bs.length - 1 - i) false)) := by
  rw [ofBits, BitVec.getLsbD_setWidth, BitVec.getLsbD_ofBoolListBE]

@[simp]
theorem ofBits_nil : ofBits w [] = 0 := by
  apply BitVec.eq_of_getLsbD_eq
  intro i _
  simp [getLsbD_ofBits]

/-- Taking bits off the front is a shift to the left. -/
theorem topBits_split {m k : Nat} (hm : m ≤ k) (x : BitVec w) :
    topBits k x = topBits m x ++ topBits (k - m) (x <<< m) := by
  apply List.ext_getElem?
  intro i
  rw [List.getElem?_append, length_topBits, getElem?_topBits k, getElem?_topBits m,
    getElem?_topBits (k - m), BitVec.getMsbD_shiftLeft]
  by_cases him : i < m
  · rw [if_pos him, if_pos him, if_pos (by omega)]
  · rw [if_neg him]
    have hsum : m + (i - m) = i := by omega
    by_cases hik : i < k
    · rw [if_pos hik, if_pos (by omega), Nat.add_comm, hsum]
    · rw [if_neg hik, if_neg (by omega)]

theorem take_topBits {m k : Nat} (hm : m ≤ k) (x : BitVec w) : (topBits k x).take m = topBits m x := by
  rw [topBits_split hm, List.take_left' (length_topBits _ _)]

/-- The last bits of a word, moved in front of those of another. -/
theorem topBits_pushed {n : Nat} (hn : n ≤ w) (x y : BitVec w) :
    topBits w (y >>> n ||| x <<< (w - n)) = topBits n (x <<< (w - n)) ++ topBits (w - n) y := by
  apply List.ext_getElem?
  intro i
  rw [List.getElem?_append, length_topBits, getElem?_topBits w, getElem?_topBits n,
    getElem?_topBits (w - n), BitVec.getMsbD_or, BitVec.getMsbD_ushiftRight]
  by_cases hin : i < n
  · have hi : i < w := by omega
    simp [hin, hi]
  · rw [if_neg hin]
    by_cases hi : i < w
    · have hout : (x <<< (w - n)).getMsbD i = false := by
        rw [BitVec.getMsbD_shiftLeft]
        exact BitVec.getMsbD_of_ge _ _ (by omega)
      rw [if_pos hi, if_pos (by omega), hout]
      simp [hin, hi]
    · rw [if_neg hi, if_neg (by omega)]

theorem ofBits_append (bs cs : List Bool) :
    ofBits w (bs ++ cs) = (ofBits w bs <<< cs.length) ||| ofBits w cs := by
  apply BitVec.eq_of_getLsbD_eq
  intro i hi
  rw [BitVec.getLsbD_or, BitVec.getLsbD_shiftLeft, getLsbD_ofBits, getLsbD_ofBits, getLsbD_ofBits,
    List.length_append]
  by_cases hc : i < cs.length
  · have hlast : bs.length + cs.length - 1 - i = bs.length + (cs.length - 1 - i) := by omega
    have hlen : i < bs.length + cs.length := by omega
    rw [hlast, List.getD_append_right _ _ _ _ (by omega), Nat.add_sub_cancel_left]
    simp [hi, hc, hlen]
  · have hb : i - cs.length < bs.length ↔ i < bs.length + cs.length := by omega
    by_cases hlen : i < bs.length + cs.length
    · have hlast : bs.length + cs.length - 1 - i = bs.length - 1 - (i - cs.length) := by omega
      rw [hlast, List.getD_append _ _ _ _ (by omega)]
      have hw : i - cs.length < w := by omega
      simp [hi, hc, hlen, hw, hb]
    · simp [hc, hlen, hb]

theorem ofBits_topBits {v m : Nat} (hm : m ≤ v) (x : BitVec v) :
    ofBits w (topBits m x) = (x >>> (v - m)).setWidth w := by
  apply BitVec.eq_of_getLsbD_eq
  intro i hi
  rw [getLsbD_ofBits, BitVec.getLsbD_setWidth, BitVec.getLsbD_ushiftRight, length_topBits]
  by_cases him : i < m
  · rw [List.getD_eq_getElem?_getD, getElem?_topBits, if_pos (by omega), Option.getD_some,
      BitVec.getMsbD_eq_getLsbD]
    have hlast : v - 1 - (m - 1 - i) = v - m + i := by omega
    have hv : m - 1 - i < v := by omega
    simp [him, hv, hlast]
  · rw [BitVec.getLsbD_of_ge x _ (by omega)]
    simp [him]

/-- The bits collected so far in front of those that leave a word. -/
theorem ofBits_append_topBits {m : Nat} (hm : m ≤ w) (bs : List Bool) (x : BitVec w) :
    ofBits w (bs ++ topBits m x) = (ofBits w bs <<< m) ||| (x >>> (w - m)) := by
  rw [ofBits_append, length_topBits, ofBits_topBits hm, BitVec.setWidth_eq]

/-- The bits collected so far in front of those of a narrower word. -/
theorem ofBits_append_word {v : Nat} (bs : List Bool) (x : BitVec v) :
    ofBits w (bs ++ topBits v x) = (ofBits w bs <<< v) ||| x.setWidth w := by
  rw [ofBits_append, length_topBits, ofBits_topBits (Nat.le_refl v), Nat.sub_self,
    BitVec.ushiftRight_zero]

/-- Collected bits, moved to the front of the word. -/
theorem topBits_ofBits {bs : List Bool} (h : bs.length ≤ w) :
    topBits bs.length (ofBits w bs <<< (w - bs.length)) = bs := by
  apply List.ext_getElem?
  intro i
  rw [getElem?_topBits]
  by_cases hi : i < bs.length
  · rw [if_pos hi, BitVec.getMsbD_shiftLeft, BitVec.getMsbD_eq_getLsbD, getLsbD_ofBits,
      List.getElem?_eq_getElem hi]
    have hlast : bs.length - 1 - (w - 1 - (i + (w - bs.length))) = i := by omega
    have h1 : i + (w - bs.length) < w := by omega
    have h2 : w - 1 - (i + (w - bs.length)) < w := by omega
    have h3 : w - 1 - (i + (w - bs.length)) < bs.length := by omega
    rw [hlast, List.getD_eq_getElem _ _ hi]
    simp [h1, h2, h3]
  · rw [if_neg hi, List.getElem?_eq_none (by omega)]

end Bits

/-!
## Codes of bits

Numbers of a fixed width, numbers in the exponential Golomb code, with signs and without, and bytes.
-/

namespace ExpGolomb

open Bits

/-- A number of `n` bits. -/
def fixed (n v : Nat) : List Bool := topBits n (BitVec.ofNat n v)

/-- How many zeros stand before the code of `v`. -/
def zeros (v : Nat) : Nat := (v + 1).log2

/-- Zeros, a one, and as many bits as there are zeros. -/
def ue (v : Nat) : List Bool :=
  List.replicate (zeros v) false ++ true :: fixed (zeros v) (v + 1 - 2 ^ zeros v)

/-- The signed numbers in the order 0, 1, -1, 2, -2. -/
def codeNum (v : Int) : Nat := if 0 < v then 2 * v.toNat - 1 else 2 * (-v).toNat

def se (v : Int) : List Bool := ue (codeNum v)

/-- The number at a place of that order. -/
def signed (v : Nat) : Int := if v % 2 = 1 then ((v + 1) / 2 : Nat) else -((v / 2 : Nat) : Int)

@[simp]
theorem length_fixed (n v : Nat) : (fixed n v).length = n := length_topBits n _

theorem ofBits_fixed {w n v : Nat} (hv : v < 2 ^ n) : ofBits w (fixed n v) = BitVec.ofNat w v := by
  rw [fixed, ofBits_topBits (Nat.le_refl n), Nat.sub_self, BitVec.ushiftRight_zero]
  apply BitVec.eq_of_toNat_eq
  rw [BitVec.toNat_setWidth, BitVec.toNat_ofNat, BitVec.toNat_ofNat, Nat.mod_eq_of_lt hv]

theorem two_pow_zeros_le (v : Nat) : 2 ^ zeros v ≤ v + 1 := Nat.log2_self_le (Nat.succ_ne_zero v)

theorem lt_two_pow_zeros (v : Nat) : v + 1 < 2 ^ (zeros v + 1) := Nat.lt_log2_self

theorem zeros_lt {w v : Nat} (hv : v + 1 < 2 ^ w) : zeros v < w :=
  (Nat.log2_lt (Nat.succ_ne_zero v)).mpr hv

/-- The bits behind the one are those of a number below its place. -/
theorem suffix_lt (v : Nat) : v + 1 - 2 ^ zeros v < 2 ^ zeros v := by
  have hlt := lt_two_pow_zeros v
  have hle := two_pow_zeros_le v
  rw [Nat.pow_succ] at hlt
  omega

theorem suffix_add (v : Nat) : v + 1 - 2 ^ zeros v + 2 ^ zeros v - 1 = v := by
  have hle := two_pow_zeros_le v
  omega

theorem codeNum_odd (v : Int) : codeNum v % 2 = 1 ↔ 0 < v := by
  rw [codeNum]
  split <;> omega

theorem codeNum_half (v : Int) :
    (if 0 < v then (((codeNum v + 1) / 2 : Nat) : Int) else -((codeNum v / 2 : Nat) : Int)) = v := by
  rw [codeNum]
  split <;> omega

theorem codeNum_lt {v : Int} {w : Nat} (hlow : -2 ^ w < v) (hhigh : v < 2 ^ w) :
    codeNum v + 1 < 2 ^ (w + 1) := by
  have hpow : ((2 ^ w : Nat) : Int) = 2 ^ w := by exact_mod_cast rfl
  rw [codeNum, Nat.pow_succ]
  split <;> omega

theorem signed_codeNum (v : Int) : signed (codeNum v) = v := by
  have hhalf := codeNum_half v
  rw [signed]
  by_cases hpos : 0 < v
  · rw [if_pos hpos] at hhalf
    rwa [if_pos ((codeNum_odd v).mpr hpos)]
  · rw [if_neg hpos] at hhalf
    rwa [if_neg ((codeNum_odd v).not.mpr hpos)]

theorem codeNum_signed (v : Nat) : codeNum (signed v) = v := by
  rw [codeNum, signed]
  split <;> split <;> omega

theorem signed_bounds {v w : Nat} (hv : v + 1 < 2 ^ (w + 1)) : -2 ^ w < signed v ∧ signed v < 2 ^ w := by
  have hpow : ((2 ^ w : Nat) : Int) = 2 ^ w := by exact_mod_cast rfl
  rw [Nat.pow_succ] at hv
  rw [signed]
  split <;> omega

/-- Zeros, a one and as many bits as there are zeros are always a code. -/
theorem ue_of_bits (xs : List Bool) :
    ue (2 ^ xs.length - 1 + (ofBits xs.length xs).toNat) =
      List.replicate xs.length false ++ true :: xs := by
  have hpos : 1 ≤ 2 ^ xs.length := Nat.one_le_two_pow
  have hlt := (ofBits xs.length xs).isLt
  have hzeros : zeros (2 ^ xs.length - 1 + (ofBits xs.length xs).toNat) = xs.length := by
    rw [zeros, Nat.log2_eq_iff (by omega), Nat.pow_succ]
    omega
  have hrest : 2 ^ xs.length - 1 + (ofBits xs.length xs).toNat + 1 - 2 ^ xs.length =
      (ofBits xs.length xs).toNat := by
    omega
  have htop := topBits_ofBits (w := xs.length) (Nat.le_refl xs.length)
  rw [Nat.sub_self, BitVec.shiftLeft_zero] at htop
  rw [ue, hzeros, hrest, fixed, BitVec.ofNat_toNat, BitVec.setWidth_eq, htop]

end ExpGolomb
