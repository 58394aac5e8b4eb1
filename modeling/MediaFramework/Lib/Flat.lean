import Mathlib.Algebra.GroupWithZero.Nat
import Mathlib.Algebra.Order.Group.Nat
import Mathlib.Algebra.BigOperators.Group.List.Basic

/-!
# Positions in groups one after the other

Groups of given sizes, numbered through: the number of a position in a group, and back.
-/

namespace Flat

/-- The group of a number, and the position in it. -/
def locate : List Nat → Nat → Option (Nat × Nat)
  | [], _ => none
  | n :: sizes, t =>
    if t < n then some (0, t) else (locate sizes (t - n)).map fun r => (r.1 + 1, r.2)

/-- The number of position `j` in group `i`. -/
def number (sizes : List Nat) (i j : Nat) : Nat := (sizes.take i).sum + j

variable {sizes : List Nat} {n t i i' j j' : Nat}

theorem number_zero : number sizes 0 j = j := by simp [number]

theorem number_succ : number (n :: sizes) (i + 1) j = n + number sizes i j := by
  simp [number, Nat.add_assoc]

theorem locate_number (hi : sizes[i]? = some n) (hj : j < n) :
    locate sizes (number sizes i j) = some (i, j) := by
  induction sizes generalizing i with
  | nil => cases hi
  | cons m sizes ih =>
    cases i with
    | zero =>
      obtain rfl : m = n := Option.some.inj hi
      rw [number_zero, locate, if_pos hj]
    | succ i =>
      have hge : ¬m + number sizes i j < m := by omega
      rw [number_succ, locate, if_neg hge, Nat.add_sub_cancel_left, ih hi, Option.map_some]

theorem locate_eq_some (h : locate sizes t = some (i, j)) :
    ∃ n, sizes[i]? = some n ∧ j < n ∧ t = number sizes i j := by
  induction sizes generalizing t i with
  | nil => cases h
  | cons m sizes ih =>
    rw [locate] at h
    split at h
    · rename_i hlt
      obtain ⟨rfl, rfl⟩ := Prod.mk.inj (Option.some.inj h)
      exact ⟨m, rfl, hlt, number_zero.symm⟩
    · rename_i hge
      obtain ⟨⟨i, j'⟩, hr, heq⟩ := Option.map_eq_some_iff.mp h
      obtain ⟨rfl, rfl⟩ := Prod.mk.inj heq
      obtain ⟨n, hn, hj, ht⟩ := ih hr
      refine ⟨n, hn, hj, ?_⟩
      rw [number_succ, ← ht]
      omega

theorem number_lt_sum (hi : sizes[i]? = some n) (hj : j < n) : number sizes i j < sizes.sum := by
  induction sizes generalizing i with
  | nil => cases hi
  | cons m sizes ih =>
    rw [List.sum_cons]
    cases i with
    | zero =>
      obtain rfl : m = n := Option.some.inj hi
      rw [number_zero]
      omega
    | succ i =>
      have hrest := ih hi
      rw [number_succ]
      omega

end Flat
