import Mathlib.Data.List.Basic

/-!
# Sextets

Three bytes are four groups of six bits. What is left of a list of bytes has some bits less than its
sextets, and these are zero.
-/

namespace Sextets

/-- The sextets of bytes. -/
def split : List Nat → List Nat
  | [] => []
  | [b₁] => [b₁ / 4, b₁ % 4 * 16]
  | [b₁, b₂] => [b₁ / 4, b₁ % 4 * 16 + b₂ / 16, b₂ % 16 * 4]
  | b₁ :: b₂ :: b₃ :: bs =>
    b₁ / 4 :: (b₁ % 4 * 16 + b₂ / 16) :: (b₂ % 16 * 4 + b₃ / 64) :: b₃ % 64 :: split bs

/-- The whole bytes that sextets hold. -/
def join : List Nat → List Nat
  | [] => []
  | [_] => []
  | [v₁, v₂] => [v₁ * 4 + v₂ / 16]
  | [v₁, v₂, v₃] => [v₁ * 4 + v₂ / 16, v₂ % 16 * 16 + v₃ / 4]
  | v₁ :: v₂ :: v₃ :: v₄ :: vs =>
    (v₁ * 4 + v₂ / 16) :: (v₂ % 16 * 16 + v₃ / 4) :: (v₃ % 4 * 64 + v₄) :: join vs

/-- The bits that are in no whole byte. -/
def unused : List Nat → Nat
  | [] => 0
  | [v₁] => v₁
  | [_, v₂] => v₂ % 16
  | [_, _, v₃] => v₃ % 4
  | _ :: _ :: _ :: _ :: vs => unused vs

/-- The sextets that fill up the last group. -/
def missing (n : Nat) : Nat := (3 - n % 3) % 3

theorem join_split {bs : List Nat} (h : ∀ b ∈ bs, b < 256) : join (split bs) = bs := by
  induction bs using split.induct with
  | case1 => rfl
  | case2 b₁ =>
    obtain ⟨h₁, -⟩ := List.forall_mem_cons.mp h
    rw [split, join]
    congr 1
    omega
  | case3 b₁ b₂ =>
    obtain ⟨h₁, h⟩ := List.forall_mem_cons.mp h
    obtain ⟨h₂, -⟩ := List.forall_mem_cons.mp h
    rw [split, join]
    congr 1
    · omega
    · congr 1
      omega
  | case4 b₁ b₂ b₃ bs ih =>
    obtain ⟨h₁, h⟩ := List.forall_mem_cons.mp h
    obtain ⟨h₂, h⟩ := List.forall_mem_cons.mp h
    obtain ⟨h₃, h⟩ := List.forall_mem_cons.mp h
    rw [split, join, ih h]
    congr 1
    · omega
    · congr 1
      · omega
      · congr 1
        omega

theorem split_join {vs : List Nat} (h : ∀ v ∈ vs, v < 64) (hlength : vs.length % 4 ≠ 1)
    (hunused : unused vs = 0) : split (join vs) = vs := by
  induction vs using join.induct with
  | case1 => rfl
  | case2 v₁ => exact absurd rfl hlength
  | case3 v₁ v₂ =>
    obtain ⟨h₁, h⟩ := List.forall_mem_cons.mp h
    obtain ⟨h₂, -⟩ := List.forall_mem_cons.mp h
    rw [unused] at hunused
    rw [join, split]
    congr 1
    · omega
    · congr 1
      omega
  | case4 v₁ v₂ v₃ =>
    obtain ⟨h₁, h⟩ := List.forall_mem_cons.mp h
    obtain ⟨h₂, h⟩ := List.forall_mem_cons.mp h
    obtain ⟨h₃, -⟩ := List.forall_mem_cons.mp h
    rw [unused] at hunused
    rw [join, split]
    congr 1
    · omega
    · congr 1
      · omega
      · congr 1
        omega
  | case5 v₁ v₂ v₃ v₄ vs ih =>
    obtain ⟨h₁, h⟩ := List.forall_mem_cons.mp h
    obtain ⟨h₂, h⟩ := List.forall_mem_cons.mp h
    obtain ⟨h₃, h⟩ := List.forall_mem_cons.mp h
    obtain ⟨h₄, h⟩ := List.forall_mem_cons.mp h
    rw [List.length_cons, List.length_cons, List.length_cons, List.length_cons] at hlength
    rw [join, split, ih h (by omega) hunused]
    congr 1
    · omega
    · congr 1
      · omega
      · congr 1
        · omega
        · congr 1
          omega

theorem split_lt {bs : List Nat} (h : ∀ b ∈ bs, b < 256) : ∀ v ∈ split bs, v < 64 := by
  induction bs using split.induct with
  | case1 => exact nofun
  | case2 b₁ =>
    obtain ⟨h₁, -⟩ := List.forall_mem_cons.mp h
    rw [split]
    simp only [List.forall_mem_cons]
    exact ⟨by omega, by omega, nofun⟩
  | case3 b₁ b₂ =>
    obtain ⟨h₁, h⟩ := List.forall_mem_cons.mp h
    obtain ⟨h₂, -⟩ := List.forall_mem_cons.mp h
    rw [split]
    simp only [List.forall_mem_cons]
    exact ⟨by omega, by omega, by omega, nofun⟩
  | case4 b₁ b₂ b₃ bs ih =>
    obtain ⟨h₁, h⟩ := List.forall_mem_cons.mp h
    obtain ⟨h₂, h⟩ := List.forall_mem_cons.mp h
    obtain ⟨h₃, h⟩ := List.forall_mem_cons.mp h
    rw [split]
    simp only [List.forall_mem_cons]
    exact ⟨by omega, by omega, by omega, by omega, ih h⟩

theorem length_split_add_missing (bs : List Nat) :
    (split bs).length + missing bs.length = 4 * ((bs.length + 2) / 3) := by
  induction bs using split.induct with
  | case1 => rfl
  | case2 b₁ => simp [split, missing]
  | case3 b₁ b₂ => simp [split, missing]
  | case4 b₁ b₂ b₃ bs ih =>
    rw [missing] at ih ⊢
    simp only [split, List.length_cons]
    omega

/-- Whole bytes come first when zeros fill up the last group. -/
theorem join_append_zeros {vs : List Nat} {n k : Nat} (h : vs.length + n = 4 * k) (hn : n ≤ 3) :
    (join (vs ++ List.replicate n 0)).take (3 * k - n) = join vs := by
  induction vs using join.induct generalizing k with
  | case1 =>
    obtain rfl : n = 0 := by
      rw [List.length_nil] at h
      omega
    exact List.take_nil
  | case2 v₁ =>
    obtain ⟨rfl, rfl⟩ : n = 3 ∧ k = 1 := by
      rw [List.length_singleton] at h
      omega
    rfl
  | case3 v₁ v₂ =>
    obtain ⟨rfl, rfl⟩ : n = 2 ∧ k = 1 := by
      simp only [List.length_cons, List.length_nil] at h
      omega
    rfl
  | case4 v₁ v₂ v₃ =>
    obtain ⟨rfl, rfl⟩ : n = 1 ∧ k = 1 := by
      simp only [List.length_cons, List.length_nil] at h
      omega
    rfl
  | case5 v₁ v₂ v₃ v₄ vs ih =>
    obtain ⟨k, rfl⟩ : ∃ m, k = m + 1 := by
      simp only [List.length_cons] at h
      exact ⟨k - 1, by omega⟩
    have hrest : vs.length + n = 4 * k := by
      simp only [List.length_cons] at h
      omega
    by_cases hnone : n ≤ 3 * k
    · have htake : 3 * (k + 1) - n = 3 * k - n + 1 + 1 + 1 := by omega
      rw [join, htake, ← ih hrest]
      rfl
    · obtain rfl : k = 0 := by omega
      obtain rfl : n = 0 := by omega
      exact absurd (Nat.zero_le _) hnone

/-- Whole groups hold whole bytes. -/
theorem length_join {vs : List Nat} {k : Nat} (h : vs.length = 4 * k) :
    (join vs).length = 3 * k := by
  induction vs using join.induct generalizing k with
  | case1 =>
    rw [List.length_nil] at h
    rw [join, List.length_nil]
    omega
  | case2 v₁ =>
    rw [List.length_singleton] at h
    omega
  | case3 v₁ v₂ =>
    simp only [List.length_cons, List.length_nil] at h
    omega
  | case4 v₁ v₂ v₃ =>
    simp only [List.length_cons, List.length_nil] at h
    omega
  | case5 v₁ v₂ v₃ v₄ vs ih =>
    simp only [List.length_cons] at h
    have hrest := ih (show vs.length = 4 * (k - 1) by omega)
    rw [join, List.length_cons, List.length_cons, List.length_cons, hrest]
    omega

theorem length_join_of_missing {vs : List Nat} {n k : Nat} (h : vs.length + n = 4 * k)
    (hn : n ≤ 3) : (join vs).length = 3 * k - n := by
  have hwhole : (vs ++ List.replicate n 0).length = 4 * k := by
    rw [List.length_append, List.length_replicate, h]
  rw [← join_append_zeros h hn, List.length_take, length_join hwhole]
  exact Nat.min_eq_left (Nat.sub_le _ _)

theorem join_lt {vs : List Nat} (h : ∀ v ∈ vs, v < 64) : ∀ b ∈ join vs, b < 256 := by
  induction vs using join.induct with
  | case1 => exact nofun
  | case2 v₁ => exact nofun
  | case3 v₁ v₂ =>
    simp only [List.forall_mem_cons] at h
    simp only [join, List.forall_mem_cons]
    exact ⟨by omega, nofun⟩
  | case4 v₁ v₂ v₃ =>
    simp only [List.forall_mem_cons] at h
    simp only [join, List.forall_mem_cons]
    exact ⟨by omega, by omega, nofun⟩
  | case5 v₁ v₂ v₃ v₄ vs ih =>
    simp only [List.forall_mem_cons] at h
    obtain ⟨h₁, h₂, h₃, h₄, h⟩ := h
    simp only [join, List.forall_mem_cons]
    exact ⟨by omega, by omega, by omega, ih h⟩

end Sextets
