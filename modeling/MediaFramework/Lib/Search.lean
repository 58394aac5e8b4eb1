import Mathlib.Order.Basic
import Mathlib.Order.Lattice

/-!
# Linear search

A loop that steps through positions from `i` on until a test holds or a bound is met.
-/

namespace Search

variable {p : Nat → Bool} {i j n : Nat}

def first (p : Nat → Bool) : Nat → Nat → Nat
  | 0, i => i
  | steps + 1, i => if p i then i else first p steps (i + 1)

/-- The first position from `i` on at which the test holds, or `n` if there is none before. -/
def upTo (p : Nat → Bool) (n i : Nat) : Nat := first p (n - i) i

theorem first_eq {steps : Nat} (hij : i ≤ j) (hj : j ≤ i + steps)
    (hnot : ∀ k, i ≤ k → k < j → ¬p k) (hat : j < i + steps → p j) : first p steps i = j := by
  induction steps generalizing i with
  | zero => exact Nat.le_antisymm hij hj
  | succ steps ih =>
    rw [first]
    split
    · next hp =>
      by_contra hne
      exact hnot i (Nat.le_refl _) (by omega) hp
    · next hp =>
      have hlt : i < j := by
        by_contra hge
        obtain rfl : i = j := by omega
        exact hp (hat (by omega))
      exact ih hlt (by omega) (fun k hk => hnot k (by omega)) fun hlt => hat (by omega)

theorem upTo_eq (hij : i ≤ j) (hj : j ≤ n) (hnot : ∀ k, i ≤ k → k < j → ¬p k)
    (hat : j < n → p j) : upTo p n i = j :=
  first_eq hij (by omega) hnot fun hlt => hat (by omega)

theorem le_upTo : i ≤ upTo p n i := by
  have hle : ∀ steps i, i ≤ first p steps i := by
    intro steps
    induction steps with
    | zero => exact fun i => Nat.le_refl i
    | succ steps ih =>
      intro i
      rw [first]
      split
      · exact Nat.le_refl i
      · exact Nat.le_of_succ_le (ih (i + 1))
  exact hle _ i

end Search

/-!
### Bisection

Binary search for a value among `n` increasing ones: a position that has the value, or the
place between the smaller and the greater ones. `none` stands for a search that runs out of
fuel.
-/

inductive Bisection
  | hit (i : Nat)
  | gap (i : Nat)
  deriving DecidableEq, Repr

namespace Bisection

variable {α : Type*} [LinearOrder α] {f : Nat → α} {x : α} {n : Nat}

def search (f : Nat → α) (x : α) : Nat → Nat → Nat → Option Bisection
  | 0, _, _ => none
  | fuel + 1, left, right_plus_one =>
    if left < right_plus_one then
      let center := left + (right_plus_one - left) / 2
      if x < f center then search f x fuel left center
      else if f center < x then search f x fuel (center + 1) right_plus_one
      else some (hit center)
    else some (gap left)

/-- What a search among the first `n` values finds. -/
def Finds (f : Nat → α) (x : α) (n : Nat) : Bisection → Prop
  | hit i => i < n ∧ f i = x
  | gap i => i ≤ n ∧ (∀ j < i, f j < x) ∧ ∀ j, i ≤ j → j < n → x < f j

/-- Only the part between `left` and `right` is left to search; it shrinks at each step. -/
theorem search_spec (hmono : ∀ i j, i ≤ j → j < n → f i ≤ f j) {fuel left right : Nat}
    (hfuel : right - left < fuel) (hlr : left ≤ right) (hn : right ≤ n)
    (hlo : ∀ j < left, f j < x) (hhi : ∀ j, right ≤ j → j < n → x < f j) :
    ∃ r, search f x fuel left right = some r ∧ Finds f x n r := by
  induction fuel generalizing left right with
  | zero => exact absurd hfuel (Nat.not_lt_zero _)
  | succ fuel ih =>
    rw [search]
    split
    · next hlt =>
      dsimp only
      generalize hc : left + (right - left) / 2 = center
      have hcn : center < n := by omega
      split
      · next hx =>
        refine ih (by omega) (by omega) (by omega) hlo fun j hj hjn => ?_
        exact lt_of_lt_of_le hx (hmono center j hj hjn)
      · next hle =>
        split
        · next hx =>
          refine ih (by omega) (by omega) hn (fun j hj => ?_) hhi
          exact lt_of_le_of_lt (hmono j center (by omega) hcn) hx
        · next hge => exact ⟨_, rfl, hcn, le_antisymm (not_lt.mp hle) (not_lt.mp hge)⟩
    · next hge =>
      obtain rfl : left = right := by omega
      exact ⟨_, rfl, hn, hlo, hhi⟩

/-- The whole range is searched with one step more than there are values. -/
theorem search_all (hmono : ∀ i j, i ≤ j → j < n → f i ≤ f j) (x : α) :
    ∃ r, search f x (n + 1) 0 n = some r ∧ Finds f x n r :=
  search_spec hmono (Nat.lt_succ_self n) (Nat.zero_le n) (Nat.le_refl n)
    (fun _ hj => absurd hj (Nat.not_lt_zero _)) fun _ hj hjn => absurd hj (Nat.not_le.mpr hjn)

end Bisection
