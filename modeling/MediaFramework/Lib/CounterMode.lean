import Mathlib.Algebra.Ring.Nat
import Mathlib.Data.Nat.ModEq
import Mathlib.Logic.Function.Iterate

/-!
# Counters and key streams

Lists of bytes as little-endian numbers, with an increment and an addition that carry from byte to
byte, and text that is combined with a key stream byte by byte.
-/

namespace LittleEndian

/-- The number that the bytes stand for, the lowest first. -/
def value : List (BitVec 8) → Nat
  | [] => 0
  | b :: bs => b.toNat + 256 * value bs

theorem value_lt (bs : List (BitVec 8)) : value bs < 256 ^ bs.length := by
  induction bs with
  | nil => exact Nat.one_pos
  | cons b bs ih =>
    have hb := b.isLt
    rw [value, List.length_cons, Nat.pow_succ]
    omega

theorem value_injective {bs bs' : List (BitVec 8)} (hlength : bs.length = bs'.length)
    (h : value bs = value bs') : bs = bs' := by
  induction bs generalizing bs' with
  | nil => exact (List.length_eq_zero_iff.mp hlength.symm).symm
  | cons b bs ih =>
    cases bs' with
    | nil => cases hlength
    | cons b' bs' =>
      have hb := b.isLt
      have hb' := b'.isLt
      rw [value, value] at h
      have hhead : b = b' := BitVec.eq_of_toNat_eq (by omega)
      rw [hhead, ih (Nat.succ.inj hlength) (by omega)]

/-- The low `n` bytes of a number. -/
def digits : Nat → Nat → List (BitVec 8)
  | 0, _ => []
  | n + 1, k => BitVec.ofNat 8 k :: digits n (k / 256)

@[simp]
theorem length_digits (n k : Nat) : (digits n k).length = n := by
  induction n generalizing k with
  | zero => rfl
  | succ n ih => rw [digits, List.length_cons, ih]

theorem value_digits (n k : Nat) : value (digits n k) = k % 256 ^ n := by
  induction n generalizing k with
  | zero => rw [Nat.pow_zero, Nat.mod_one]; rfl
  | succ n ih =>
    have hpow : (256 : Nat) ^ (n + 1) = 256 * 256 ^ n := by rw [Nat.pow_succ, Nat.mul_comm]
    rw [digits, value, ih, BitVec.toNat_ofNat, hpow, Nat.mod_mul]

/-- A digit in front of a number that wraps. -/
theorem add_mul_mod (c n m : Nat) (hc : c < 256) : (c + 256 * n) % (256 * m) = c + 256 * (n % m) := by
  rcases Nat.eq_zero_or_pos m with rfl | hm
  · rw [Nat.mul_zero, Nat.mod_zero, Nat.mod_zero]
  · have hsplit := Nat.div_add_mod n m
    have hlt := Nat.mod_lt n hm
    have heq : c + 256 * n = c + 256 * (n % m) + 256 * m * (n / m) := by
      rw [Nat.mul_assoc]
      omega
    rw [heq, Nat.add_mul_mod_self_left, Nat.mod_eq_of_lt (by omega)]

/-- One more. -/
def increment : List (BitVec 8) → List (BitVec 8)
  | [] => []
  | b :: bs => (b + 1) :: if b + 1 = 0 then increment bs else bs

@[simp]
theorem length_increment (bs : List (BitVec 8)) : (increment bs).length = bs.length := by
  induction bs with
  | nil => rfl
  | cons b bs ih =>
    rw [increment, List.length_cons, List.length_cons]
    split
    · rw [ih]
    · rfl

theorem value_increment (bs : List (BitVec 8)) :
    value (increment bs) = (value bs + 1) % 256 ^ bs.length := by
  induction bs with
  | nil => rfl
  | cons b bs ih =>
    have hb := b.isLt
    have hsucc : (b + 1).toNat = (b.toNat + 1) % 256 := BitVec.toNat_add b 1
    rw [increment, List.length_cons, Nat.pow_succ, Nat.mul_comm _ 256, value, value, hsucc]
    by_cases hlast : b.toNat = 255
    · have hzero : b + 1 = 0 := BitVec.eq_of_toNat_eq (by rw [hsucc, hlast]; rfl)
      have hcarry : b.toNat + 256 * value bs + 1 = 0 + 256 * (value bs + 1) := by omega
      rw [if_pos hzero, hcarry, add_mul_mod 0 _ _ (by decide), ih, hlast]
    · have hne : b + 1 ≠ 0 := by
        intro hzero
        rw [hzero] at hsucc
        have hlt : (0 : BitVec 8).toNat = 0 := rfl
        omega
      rw [if_neg hne, Nat.add_right_comm, add_mul_mod _ _ _ (by omega),
        Nat.mod_eq_of_lt (value_lt bs), Nat.mod_eq_of_lt (by omega)]

@[simp]
theorem length_iterate_increment (bs : List (BitVec 8)) (n : Nat) :
    (increment^[n] bs).length = bs.length := by
  induction n with
  | zero => rfl
  | succ n ih => rw [Function.iterate_succ_apply', length_increment, ih]

theorem value_iterate_increment (bs : List (BitVec 8)) (n : Nat) :
    value (increment^[n] bs) = (value bs + n) % 256 ^ bs.length := by
  induction n with
  | zero => exact (Nat.mod_eq_of_lt (value_lt bs)).symm
  | succ n ih =>
    rw [Function.iterate_succ_apply', value_increment, length_iterate_increment, ih,
      Nat.mod_add_mod, Nat.add_assoc]

end LittleEndian

/-! ### Key streams -/

namespace KeyStream

variable {w : Nat} (keyStream : Nat → BitVec w)

/-- The text from position `n` on, combined with the key stream. -/
def crypt (n : Nat) : List (BitVec w) → List (BitVec w)
  | [] => []
  | x :: text => (x ^^^ keyStream n) :: crypt (n + 1) text

@[simp]
theorem length_crypt (n : Nat) (text : List (BitVec w)) :
    (crypt keyStream n text).length = text.length := by
  induction text generalizing n with
  | nil => rfl
  | cons x text ih => rw [crypt, List.length_cons, List.length_cons, ih]

/-- Encryption and decryption are the same. -/
theorem crypt_crypt (n : Nat) (text : List (BitVec w)) :
    crypt keyStream n (crypt keyStream n text) = text := by
  induction text generalizing n with
  | nil => rfl
  | cons x text ih => rw [crypt, crypt, ih, BitVec.xor_assoc, BitVec.xor_self, BitVec.xor_zero]

theorem drop_crypt (n k : Nat) (text : List (BitVec w)) :
    (crypt keyStream n text).drop k = crypt keyStream (n + k) (text.drop k) := by
  induction text generalizing n k with
  | nil =>
    rw [crypt, List.drop_nil]
    rfl
  | cons x text ih =>
    cases k with
    | zero => rfl
    | succ k => rw [crypt, List.drop_succ_cons, List.drop_succ_cons, ih, Nat.add_right_comm]; rfl

theorem take_crypt (n k : Nat) (text : List (BitVec w)) :
    (crypt keyStream n text).take k = crypt keyStream n (text.take k) := by
  induction text generalizing n k with
  | nil =>
    rw [crypt, List.take_nil]
    rfl
  | cons x text ih =>
    cases k with
    | zero => rfl
    | succ k => rw [crypt, List.take_succ_cons, List.take_succ_cons, ih, crypt]

end KeyStream
