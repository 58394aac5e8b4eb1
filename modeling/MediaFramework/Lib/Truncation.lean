import Mathlib.Algebra.Ring.Int.Defs
import Mathlib.Algebra.Ring.Nat

/-!
# Division that truncates toward zero

When truncation to a multiple of a step gives back a given multiple.
-/

namespace Truncation

variable {n p q f r : Int}

theorem tdiv_of_nonpos (h : n ≤ 0) : n.tdiv f = -(-n / f) := by
  rw [← Int.tdiv_eq_ediv_of_nonneg (Int.neg_nonneg_of_nonpos h), Int.neg_tdiv, Int.neg_neg]

/-- A multiple of the step is the floor of `n` exactly when `n` is in the step from it on. -/
theorem ediv_mul_eq_iff (hf : 0 < f) (hdvd : f ∣ p) : n / f * f = p ↔ p ≤ n ∧ n < p + f := by
  obtain ⟨k, rfl⟩ := hdvd
  have hle : n / f * f ≤ n := Int.ediv_mul_le n (Int.ne_of_gt hf)
  have hlt : n < (n / f + 1) * f := Int.lt_ediv_add_one_mul_self n hf
  rw [Int.add_mul, Int.one_mul] at hlt
  constructor
  · rintro h
    rw [h] at hle hlt
    exact ⟨hle, hlt⟩
  · rintro ⟨hge, hless⟩
    have hk : n / f = k := by
      apply Int.le_antisymm
      · exact Int.lt_add_one_iff.mp (Int.ediv_lt_of_lt_mul hf (by
          rw [Int.add_mul, Int.one_mul, Int.mul_comm k f]
          exact hless))
      · exact Int.le_ediv_of_mul_le hf (by
          rw [Int.mul_comm]
          exact hge)
    rw [hk, Int.mul_comm]

/-- `n` beyond `p`, truncation to the step still gives `p`. -/
def Near (f p n : Int) : Prop := -f < n ∧ n < f ∧ (0 < p → 0 ≤ n) ∧ (p < 0 → n ≤ 0)

instance (f p n : Int) : Decidable (Near f p n) := inferInstanceAs (Decidable (_ ∧ _))

theorem near_zero (hf : 0 < f) : Near f p 0 :=
  ⟨by omega, hf, fun _ => Int.le_refl _, fun _ => Int.le_refl _⟩

theorem tdiv_mul_eq_iff (hf : 0 < f) (hdvd : f ∣ p) : (p + n).tdiv f * f = p ↔ Near f p n := by
  have hpos : 0 < p → f ≤ p := fun h => Int.le_of_dvd h hdvd
  have hneg : p < 0 → f ≤ -p := fun h => Int.le_of_dvd (by omega) (Int.dvd_neg.mpr hdvd)
  rcases Int.le_total 0 (p + n) with hsign | hsign
  · rw [Int.tdiv_eq_ediv_of_nonneg hsign, ediv_mul_eq_iff hf hdvd, Near]
    constructor
    · rintro ⟨hge, hlt⟩
      exact ⟨by omega, by omega, fun _ => by omega, fun h => by have := hneg h; omega⟩
    · rintro ⟨hgt, hlt, hge, -⟩
      rcases Int.lt_trichotomy p 0 with hp | hp | hp
      · have := hneg hp
        omega
      · omega
      · have := hge hp
        omega
  · have hmirror : -(-(p + n) / f) * f = p ↔ -(p + n) / f * f = -p := by
      rw [Int.neg_mul]
      omega
    rw [tdiv_of_nonpos hsign, hmirror, ediv_mul_eq_iff hf (Int.dvd_neg.mpr hdvd), Near]
    constructor
    · rintro ⟨hge, hlt⟩
      exact ⟨by omega, by omega, fun h => by have := hpos h; omega, fun _ => by omega⟩
    · rintro ⟨hgt, hlt, -, hle⟩
      rcases Int.lt_trichotomy p 0 with hp | hp | hp
      · have := hle hp
        omega
      · omega
      · have := hpos hp
        omega

end Truncation
