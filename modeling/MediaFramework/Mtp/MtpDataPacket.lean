import MediaFramework.Lib.CounterMode
import MediaFramework.Lib.Ring

/-!
# Data packets

`media/mtp/MtpDataPacket.cpp`, `MtpPacket.cpp` and `MtpStringBuffer.cpp`. A call that returns false,
throws or aborts has no result. A string is a list of characters.
-/

namespace MediaFramework.Mtp

open LittleEndian

abbrev Byte := BitVec 8

def MTP_BUFFER_SIZE : Nat := 16384

def MTP_CONTAINER_HEADER_SIZE : Nat := 12

def MTP_STRING_MAX_CHARACTER_NUMBER : Nat := 255

/-- The data of a packet, how much memory it has, and where the next call gets or puts. -/
structure MtpDataPacket where
  mBuffer : List Byte
  mBufferSize : Nat
  mOffset : Nat
  inside : mOffset ≤ mBuffer.length
  deriving DecidableEq

/-- A call that may fail. -/
abbrev Packet (α : Type) := StateT MtpDataPacket Option α

def reset : MtpDataPacket where
  mBuffer := List.replicate MTP_CONTAINER_HEADER_SIZE 0
  mBufferSize := MTP_BUFFER_SIZE
  mOffset := MTP_CONTAINER_HEADER_SIZE
  inside := List.length_replicate.ge

/-- The new size, which is computed in an `int`. -/
def allocate (length mBufferSize : Nat) : Option Nat :=
  if length > mBufferSize then
    let newLength := length + MTP_BUFFER_SIZE
    if newLength < 2 ^ 31 then some newLength else none
  else some mBufferSize

/-- The stores of a `put` call. -/
def put (bytes : List Byte) : Packet Unit := fun packet =>
  (allocate (packet.mOffset + bytes.length) packet.mBufferSize).map fun mBufferSize =>
    ((), ⟨Ring.poke packet.mBuffer packet.mOffset bytes, mBufferSize, packet.mOffset + bytes.length,
      Ring.le_length_poke packet.inside⟩)

/-- A number of `n` bytes. -/
def putUInt (n : Nat) (value : BitVec (8 * n)) : Packet Unit := put (digits n value.toNat)

def putUInt8 (value : BitVec 8) : Packet Unit := putUInt 1 value

def putUInt16 (value : BitVec 16) : Packet Unit := putUInt 2 value

def putUInt32 (value : BitVec 32) : Packet Unit := putUInt 4 value

def putUInt64 (value : BitVec 64) : Packet Unit := putUInt 8 value

/-- Four numbers of 32 bits. -/
def putUInt128 (value : BitVec 128) : Packet Unit := do
  putUInt32 (value.extractLsb' 0 32)
  putUInt32 (value.extractLsb' 32 32)
  putUInt32 (value.extractLsb' 64 32)
  putUInt32 (value.extractLsb' 96 32)

theorem inside_get {n : Nat} {packet : MtpDataPacket}
    (h : ¬packet.mBuffer.length - packet.mOffset < n) :
    packet.mOffset + n ≤ packet.mBuffer.length := by
  have hinside := packet.inside
  omega

def getUInt (n : Nat) : Packet (BitVec (8 * n)) := fun packet =>
  if h : packet.mBuffer.length - packet.mOffset < n then none
  else
    some (BitVec.ofNat _ (value (Ring.slice packet.mBuffer packet.mOffset n)),
      ⟨packet.mBuffer, packet.mBufferSize, packet.mOffset + n, inside_get h⟩)

def getUInt8 : Packet (BitVec 8) := getUInt 1

def getUInt16 : Packet (BitVec 16) := getUInt 2

def getUInt32 : Packet (BitVec 32) := getUInt 4

def getUInt64 : Packet (BitVec 64) := getUInt 8

def getUInt128 : Packet (BitVec 128) := do
  let value₀ ← getUInt32
  let value₁ ← getUInt32
  let value₂ ← getUInt32
  let value₃ ← getUInt32
  return value₃ ++ value₂ ++ value₁ ++ value₀

/-! ### Strings -/

def utf16Units (c : Char) : List (BitVec 16) :=
  if c.toNat < 0x10000 then [BitVec.ofNat 16 c.toNat]
  else
    [BitVec.ofNat 16 (0xD800 + (c.toNat - 0x10000) / 0x400),
      BitVec.ofNat 16 (0xDC00 + (c.toNat - 0x10000) % 0x400)]

def utf8ToUtf16 (input_str : List Char) : List (BitVec 16) := input_str.flatMap utf16Units

/-- A unit that is half of a pair without the other half has no conversion. -/
def utf16ToUtf8 : List (BitVec 16) → Option (List Char)
  | [] => some []
  | [u] => if 0xD800 ≤ u.toNat ∧ u.toNat < 0xE000 then none else some [Char.ofNat u.toNat]
  | u :: v :: units =>
    if 0xD800 ≤ u.toNat ∧ u.toNat < 0xE000 then
      if u.toNat < 0xDC00 ∧ 0xDC00 ≤ v.toNat ∧ v.toNat < 0xE000 then
        (utf16ToUtf8 units).map
          (Char.ofNat (0x10000 + (u.toNat - 0xD800) * 0x400 + (v.toNat - 0xDC00)) :: ·)
      else none
    else (utf16ToUtf8 (v :: units)).map (Char.ofNat u.toNat :: ·)

def getUnits : Nat → Packet (List (BitVec 16))
  | 0 => return []
  | count + 1 => do
    let ch ← getUInt16
    let buffer ← getUnits count
    return ch :: buffer

def readFromPacket : Packet (List Char) := do
  let count ← getUInt8
  if count = 0 then return []
  else
    let buffer ← getUnits count.toNat
    if buffer.getLast? ≠ some 0 then failure
    else
      -- the string ends at its first zero
      match utf16ToUtf8 (buffer.takeWhile (· ≠ 0)) with
      | none => failure
      | some mString => return mString

/-- `readFromPacket` of a buffer that holds a string. An empty string leaves it as it is. -/
def readFromPacketInto (mString : List Char) : Packet (List Char) := do
  let count ← getUInt8
  if count = 0 then return mString
  else
    let buffer ← getUnits count.toNat
    if buffer.getLast? ≠ some 0 then failure
    else
      match utf16ToUtf8 (buffer.takeWhile (· ≠ 0)) with
      | none => failure
      | some mString => return mString

theorem readFromPacketInto_nil : readFromPacketInto [] = readFromPacket := rfl

def putUnits : List (BitVec 16) → Packet Unit
  | [] => return ()
  | c :: src16 => do
    putUInt16 c
    putUnits src16

def writeToPacket (mString : List Char) : Packet Unit := do
  let src16 := utf8ToUtf16 mString
  let count := src16.length
  if count = 0 then putUInt8 0
  else
    putUInt8 (BitVec.ofNat 8 (min (count + 1) MTP_STRING_MAX_CHARACTER_NUMBER))
    -- a slot is left for the null termination
    putUnits (src16.take (MTP_STRING_MAX_CHARACTER_NUMBER - 1))
    putUInt16 0

def getString : Packet (List Char) := readFromPacket

def putString (s : List Char) : Packet Unit := writeToPacket s

def putEmptyString : Packet Unit := putUInt8 0

end MediaFramework.Mtp
