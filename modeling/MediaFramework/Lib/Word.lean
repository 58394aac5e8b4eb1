import Mathlib.Data.Nat.Bitwise
import Mathlib.Data.Nat.ModEq
import Mathlib.Tactic.Ring

/-!
# Positions kept in fixed-width words

An unbounded position is kept modulo `2 ^ w`, and a word may carry only the low `m`
bits of a position together with a counter in its high bits. This file has the
arithmetic of both: differences of wrapped positions, and `splice`, which replaces the
low bits of one word by those of another.
-/

namespace Word

variable {w m : Nat}

/-- The word whose low `m` bits are set. -/
def lowMask (w m : Nat) : BitVec w := BitVec.ofNat w (2^m - 1)

/-- The high bits of `hi` above the low `m` bits of `lo`. -/
def splice (m : Nat) (hi lo : BitVec w) : BitVec w :=
  (hi &&& ~~~lowMask w m) ||| (lo &&& lowMask w m)

theorem lowMask_toNat (hm : m ≤ w) : (lowMask w m).toNat = 2^m - 1 := by
  have hle := Nat.pow_le_pow_right (by omega : 0 < 2) hm
  have hpos := Nat.two_pow_pos m
  rw [lowMask, BitVec.toNat_ofNat, Nat.mod_eq_of_lt (by omega)]

theorem and_lowMask_toNat (hm : m ≤ w) (x : BitVec w) :
    (x &&& lowMask w m).toNat = x.toNat % 2^m := by
  rw [BitVec.toNat_and, lowMask_toNat hm, Nat.and_two_pow_sub_one_eq_mod]

theorem lowMask_getLsbD (hm : m ≤ w) (i : Nat) :
    (lowMask w m).getLsbD i = decide (i < m) := by
  rw [← BitVec.testBit_toNat, lowMask_toNat hm, Nat.testBit_two_pow_sub_one]

theorem splice_toNat (hm : m ≤ w) (hi lo : BitVec w) :
    (splice m hi lo).toNat = 2^m * (hi.toNat / 2^m) + lo.toNat % 2^m := by
  apply Nat.eq_of_testBit_eq
  intro i
  have hlt : lo.toNat % 2^m < 2^m := Nat.mod_lt _ (Nat.two_pow_pos m)
  rw [Nat.testBit_two_pow_mul_add _ hlt, BitVec.testBit_toNat]
  simp only [splice, BitVec.getLsbD_or, BitVec.getLsbD_and, BitVec.getLsbD_not,
    lowMask_getLsbD hm]
  by_cases him : i < m
  · simp [him, Nat.testBit_mod_two_pow, BitVec.testBit_toNat]
  · have hsum : i - m + m = i := by omega
    by_cases hiw : i < w
    · simp [him, hiw, Nat.testBit_div_two_pow, BitVec.testBit_toNat, hsum]
    · have hge : w ≤ i := by omega
      simp [him, hiw, Nat.testBit_div_two_pow, BitVec.testBit_toNat, hsum,
        BitVec.getLsbD_of_ge _ _ hge]

theorem and_not_lowMask_toNat (hm : m ≤ w) (x : BitVec w) :
    (x &&& ~~~lowMask w m).toNat = 2^m * (x.toNat / 2^m) := by
  have h := splice_toNat hm x 0
  simpa [splice] using h

/-- The low bits of `lo` under the counter of `cur` advanced by one. -/
def stamp (m : Nat) (cur lo : BitVec w) : BitVec w :=
  (lo &&& lowMask w m) ||| ((cur &&& ~~~lowMask w m) + BitVec.ofNat w (2^m))

theorem mul_add_div_pow (a b : Nat) (hb : b < 2^m) : (2^m * a + b) / 2^m = a := by
  rw [Nat.mul_add_div (Nat.two_pow_pos m), Nat.div_eq_of_lt hb, Nat.add_zero]

theorem stamp_toNat (hm : m ≤ w) (cur lo : BitVec w) :
    (stamp m cur lo).toNat =
      2^m * ((cur.toNat / 2^m + 1) % 2^(w - m)) + lo.toNat % 2^m := by
  have hpow : 2^w = 2^m * 2^(w - m) := by rw [← pow_add, Nat.add_sub_cancel' hm]
  have hhi : ((cur &&& ~~~lowMask w m) + BitVec.ofNat w (2^m)).toNat =
      2^m * ((cur.toNat / 2^m + 1) % 2^(w - m)) := by
    rw [BitVec.toNat_add, and_not_lowMask_toNat hm, BitVec.toNat_ofNat, Nat.add_mod_mod, hpow,
      ← Nat.mul_add_one, Nat.mul_mod_mul_left]
  have hlt : lo.toNat % 2^m < 2^m := Nat.mod_lt _ (Nat.two_pow_pos m)
  rw [stamp, BitVec.toNat_or, and_lowMask_toNat hm, hhi, Nat.or_comm,
    ← Nat.two_pow_add_eq_or_of_lt hlt]

theorem stamp_mod (hm : m ≤ w) (cur lo : BitVec w) :
    (stamp m cur lo).toNat % 2^m = lo.toNat % 2^m := by
  rw [stamp_toNat hm, Nat.mul_add_mod, Nat.mod_mod]

/-- `cur` carries the counter of `base` advanced `n` times. -/
def Stamped (m : Nat) (base cur : BitVec w) (n : Nat) : Prop :=
  cur.toNat / 2^m = (base.toNat / 2^m + n) % 2^(w - m) ∧ (n = 0 → cur = base)

theorem Stamped.refl (hm : m ≤ w) (x : BitVec w) : Stamped m x x 0 := by
  have hpow : 2^w = 2^m * 2^(w - m) := by rw [← pow_add, Nat.add_sub_cancel' hm]
  have hlt : x.toNat / 2^m < 2^(w - m) :=
    Nat.div_lt_of_lt_mul (by rw [← hpow]; exact x.isLt)
  exact ⟨(Nat.mod_eq_of_lt hlt).symm, fun _ => rfl⟩

theorem Stamped.stamp (hm : m ≤ w) {base cur : BitVec w} {n : Nat}
    (h : Stamped m base cur n) (lo : BitVec w) : Stamped m base (stamp m cur lo) (n + 1) := by
  have hlt : lo.toNat % 2^m < 2^m := Nat.mod_lt _ (Nat.two_pow_pos m)
  refine ⟨?_, by omega⟩
  rw [stamp_toNat hm, mul_add_div_pow _ _ hlt, h.1, Nat.mod_add_mod, Nat.add_assoc]

/-- As long as the counter has not come round, a stamped word differs from its base. -/
theorem Stamped.ne_iff (hm : m ≤ w) {base cur : BitVec w} {n : Nat} (h : Stamped m base cur n)
    (hn : n < 2^(w - m)) : cur ≠ base ↔ n ≠ 0 := by
  constructor
  · intro hne h0
    exact hne (h.2 h0)
  · rintro h0 rfl
    have hrefl := (Stamped.refl hm cur).1
    have heq : (cur.toNat / 2^m + n) % 2^(w - m) = (cur.toNat / 2^m + 0) % 2^(w - m) :=
      h.1.symm.trans hrefl
    have hmod : n % 2^(w - m) = 0 % 2^(w - m) := Nat.ModEq.add_left_cancel' _ heq
    rw [Nat.mod_eq_of_lt hn, Nat.zero_mod] at hmod
    exact h0 hmod

/-- A number that is cut to 32 bits with a sign. -/
def toInt32 (x : Int) : Int := (BitVec.ofInt 32 x).toInt

theorem toInt32_of_fits {x : Int} (h : -2 ^ 31 ≤ x ∧ x < 2 ^ 31) : toInt32 x = x := by
  rw [toInt32, BitVec.toInt_ofInt]
  apply Int.bmod_eq_of_le <;> omega

section Positions

/-- A difference of wrapped positions that fits is the difference of the positions. -/
theorem toInt_sub_ofNat {f r : Nat} (hle : f ≤ r) (hw : 2 * (r - f) < 2^w) :
    (BitVec.ofNat w r - BitVec.ofNat w f).toInt = (r : Int) - f := by
  have hsub : BitVec.ofNat w r - BitVec.ofNat w f = BitVec.ofNat w (r - f) := by
    rw [BitVec.sub_eq_iff_eq_add, ← BitVec.ofNat_add, Nat.sub_add_cancel hle]
  have hnat : (BitVec.ofNat w (r - f)).toNat = r - f := by
    rw [BitVec.toNat_ofNat, Nat.mod_eq_of_lt (by omega)]
  rw [hsub, BitVec.toInt_eq_toNat_of_lt (by rw [hnat]; exact hw), hnat]
  omega

/-- The same for positions in either order. -/
theorem toInt_sub_ofNat_of_fits {f r : Nat} (h : -2^31 ≤ (r : Int) - f ∧ (r : Int) - f < 2^31) :
    (BitVec.ofNat 32 r - BitVec.ofNat 32 f).toInt = (r : Int) - f := by
  rw [BitVec.toInt_sub, BitVec.toInt_ofNat', BitVec.toInt_ofNat', Int.sub_bmod_bmod,
    Int.bmod_sub_bmod, Int.bmod_eq_of_le (by omega) (by omega)]

/-- Words that carry the low bits of two positions less than a block apart tell their distance. -/
theorem sub_and_lowMask_toNat (hm : m ≤ w) {x y : BitVec w} {p q : Nat}
    (hx : x.toNat % 2^m = p % 2^m) (hy : y.toNat % 2^m = q % 2^m) (hle : q ≤ p)
    (hlt : p < q + 2^m) : ((x - y) &&& lowMask w m).toNat = p - q := by
  have hback : (x - y).toNat + y.toNat ≡ x.toNat [MOD 2^w] := by
    rw [Nat.ModEq, ← BitVec.toNat_add, BitVec.sub_add_cancel, Nat.mod_eq_of_lt x.isLt]
  have hdist : (x - y).toNat + q ≡ (p - q) + q [MOD 2^m] := by
    rw [Nat.sub_add_cancel hle]
    calc (x - y).toNat + q ≡ (x - y).toNat + y.toNat [MOD 2^m] := Nat.ModEq.add_left _ hy.symm
      _ ≡ x.toNat [MOD 2^m] := hback.of_dvd (pow_dvd_pow 2 hm)
      _ ≡ p [MOD 2^m] := hx
  have hmod : (x - y).toNat % 2^m = (p - q) % 2^m := Nat.ModEq.add_right_cancel' q hdist
  rw [and_lowMask_toNat hm, hmod, Nat.mod_eq_of_lt (by omega)]

/-- The position with the low bits of `p` in the aligned block of `base`. -/
def rebase (m base p : Nat) : Nat := 2^m * (base / 2^m) + p % 2^m

theorem splice_ofNat (hm : m ≤ w) {base p : Nat} {lo : BitVec w}
    (hlo : lo.toNat % 2^m = p % 2^m) :
    splice m (BitVec.ofNat w base) lo = BitVec.ofNat w (rebase m base p) := by
  apply BitVec.eq_of_toNat_eq
  have hpow : 2^w = 2^m * 2^(w - m) := by rw [← pow_add, Nat.add_sub_cancel' hm]
  have hlt : p % 2^m < 2^m := Nat.mod_lt _ (Nat.two_pow_pos m)
  rw [splice_toNat hm, hlo, BitVec.toNat_ofNat, BitVec.toNat_ofNat, rebase, hpow,
    Nat.mod_mul_right_div_self, Nat.mod_mul, Nat.mul_add_mod, Nat.mod_eq_of_lt hlt,
    mul_add_div_pow _ _ hlt, Nat.add_comm]

theorem rebase_of_div_eq {base p : Nat} (h : base / 2^m = p / 2^m) : rebase m base p = p := by
  rw [rebase, h, Nat.div_add_mod]

theorem rebase_of_div_eq_add_one {base p : Nat} (h : base / 2^m = p / 2^m + 1) :
    rebase m base p = p + 2^m := by
  have hp := Nat.div_add_mod p (2^m)
  rw [rebase, h, Nat.mul_add_one]
  omega

theorem rebase_add_of_div_add_one_eq {base p : Nat} (h : base / 2^m + 1 = p / 2^m) :
    rebase m base p + 2^m = p := by
  have hp := Nat.div_add_mod p (2^m)
  rw [← h, Nat.mul_add_one] at hp
  rw [rebase]
  omega

/-- Two positions less than a block apart lie in the same block or in consecutive ones. -/
theorem div_eq_or_succ {a b : Nat} (hle : a ≤ b) (hlt : b < a + 2^m) :
    b / 2^m = a / 2^m ∨ b / 2^m = a / 2^m + 1 := by
  have h₁ : a / 2^m ≤ b / 2^m := Nat.div_le_div_right hle
  have h₂ : b / 2^m ≤ (a + 2^m) / 2^m := Nat.div_le_div_right hlt.le
  rw [Nat.add_div_right _ (Nat.two_pow_pos m)] at h₂
  omega

/-- They share a block exactly when their low bits are in their own order. -/
theorem div_eq_iff_mod_le {a b : Nat} (hle : a ≤ b) (hlt : b < a + 2^m) :
    a / 2^m = b / 2^m ↔ a % 2^m ≤ b % 2^m := by
  have ha := Nat.div_add_mod a (2^m)
  have hb := Nat.div_add_mod b (2^m)
  have hbm : b % 2^m < 2^m := Nat.mod_lt _ (Nat.two_pow_pos m)
  rcases div_eq_or_succ hle hlt with heq | heq
  · rw [heq] at hb
    exact iff_of_true heq.symm (by omega)
  · rw [heq, Nat.mul_add_one] at hb
    exact iff_of_false (by omega) (by omega)

end Positions

end Word
