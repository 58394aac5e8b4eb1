import MediaFramework.Lib.Buffer
import MediaFramework.Lib.CounterMode
import MediaFramework.Lib.Blocks

/-!
# Numbers in either byte order

Numbers of a fixed number of bytes, one or many, as they stand in a file, and how they are read at a
position of it.
-/

namespace Endian

abbrev Byte := BitVec 8

def encode (big : Bool) (size x : Nat) : List Byte :=
  if big then (LittleEndian.digits size x).reverse else LittleEndian.digits size x

def decode (big : Bool) (bytes : List Byte) : Nat :=
  LittleEndian.value (if big then bytes.reverse else bytes)

def encodeAll (big : Bool) (size : Nat) (xs : List Nat) : List Byte := xs.flatMap (encode big size)

/-- The numbers at the front. -/
def decodeAll (big : Bool) (size : Nat) : Nat → List Byte → List Nat
  | 0, _ => []
  | n + 1, bytes => decode big (bytes.take size) :: decodeAll big size n (bytes.drop size)

variable {big : Bool} {size x i n : Nat} {xs : List Nat} {bytes data : List Byte}

@[simp]
theorem length_encode (big : Bool) (size x : Nat) : (encode big size x).length = size := by
  cases big <;> simp [encode]

theorem decode_encode (hx : x < 256 ^ size) : decode big (encode big size x) = x := by
  cases big <;> simp [encode, decode, LittleEndian.value_digits, Nat.mod_eq_of_lt hx]

theorem decode_lt (bytes : List Byte) : decode big bytes < 256 ^ bytes.length := by
  cases big
  · exact LittleEndian.value_lt bytes
  · have hlt := LittleEndian.value_lt bytes.reverse
    rwa [List.length_reverse] at hlt

theorem encode_decode (h : bytes.length = size) : encode big size (decode big bytes) = bytes := by
  have hdigits : ∀ bs : List Byte, LittleEndian.digits bs.length (LittleEndian.value bs) = bs := by
    intro bs
    apply LittleEndian.value_injective (LittleEndian.length_digits _ _)
    rw [LittleEndian.value_digits, Nat.mod_eq_of_lt (LittleEndian.value_lt bs)]
  cases big
  · show LittleEndian.digits size (LittleEndian.value bytes) = bytes
    rw [← h, hdigits]
  · have hreverse := hdigits bytes.reverse
    rw [List.length_reverse, h] at hreverse
    show (LittleEndian.digits size (LittleEndian.value bytes.reverse)).reverse = bytes
    rw [hreverse, List.reverse_reverse]

@[simp]
theorem encodeAll_cons (x : Nat) (xs : List Nat) :
    encodeAll big size (x :: xs) = encode big size x ++ encodeAll big size xs := rfl

@[simp]
theorem length_encodeAll (big : Bool) (size : Nat) (xs : List Nat) :
    (encodeAll big size xs).length = size * xs.length := by
  induction xs with
  | nil => rfl
  | cons x xs ih => rw [encodeAll_cons, List.length_append, length_encode, ih, List.length_cons,
      Nat.mul_succ, Nat.add_comm]

theorem decodeAll_encodeAll (hxs : ∀ x ∈ xs, x < 256 ^ size) :
    decodeAll big size xs.length (encodeAll big size xs) = xs := by
  induction xs with
  | nil => rfl
  | cons x xs ih =>
    obtain ⟨hx, hxs⟩ := List.forall_mem_cons.mp hxs
    have hlength := length_encode big size x
    rw [encodeAll_cons, List.length_cons, decodeAll, List.take_left' hlength, List.drop_left' hlength,
      decode_encode hx, ih hxs]

/-! ### Reading at a position -/

def read (big : Bool) (bytes : List Byte) (i size : Nat) : Option Nat :=
  (Buffer.load bytes i size).map (decode big)

def readAll (big : Bool) (bytes : List Byte) (i size n : Nat) : Option (List Nat) :=
  (Buffer.load bytes i (size * n)).map (decodeAll big size n)

theorem load_window (h : Window bytes i data) (hpos : 0 < data.length) :
    Buffer.load bytes i data.length = some data := by
  have hle := h.length_le
  rw [Buffer.load, if_pos (by omega), Ring.slice, ← h.eq_take]

/-- The front of a window holds what is read there. -/
theorem readAll_front (h : Window bytes i data) (hfits : size * n ≤ data.length)
    (hpos : 0 < size * n) : readAll big bytes i size n = readAll big data 0 size n := by
  have hle := h.length_le
  have hslice := @Window.slice _ bytes data i 0 (size * n) h (by omega)
  rw [readAll, readAll, Buffer.load, Buffer.load, if_pos (by omega), if_pos (by omega), Ring.slice,
    Ring.slice, hslice, Nat.add_zero]

theorem read_window (h : Window bytes i (encode big size x)) (hpos : 0 < size) (hx : x < 256 ^ size) :
    read big bytes i size = some x := by
  have hload := load_window h (by rwa [length_encode])
  rw [length_encode] at hload
  rw [read, hload, Option.map_some, decode_encode hx]

theorem readAll_window (h : Window bytes i (encodeAll big size xs)) (hpos : 0 < size * xs.length)
    (hxs : ∀ x ∈ xs, x < 256 ^ size) : readAll big bytes i size xs.length = some xs := by
  have hload := load_window h (by rwa [length_encodeAll])
  rw [length_encodeAll] at hload
  rw [readAll, hload, Option.map_some, decodeAll_encodeAll hxs]

end Endian
