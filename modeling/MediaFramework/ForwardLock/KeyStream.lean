import MediaFramework.ForwardLock.Converter
import MediaFramework.Lib.CounterMode
import MediaFramework.ForwardLock.Calls
import Mathlib.Algebra.Ring.Nat

/-!
# Reading a forward-lock file

`FwdLockFile.c` (`drm/libdrmframework/plugins/forward-lock/internal-format/decoder`) over a file
with `read` and `lseek64` as POSIX has them for a regular file.
-/

namespace MediaFramework.ForwardLock

/-! ### Files -/

inductive Whence
  | SEEK_SET
  | SEEK_CUR
  | SEEK_END
  | other
  deriving DecidableEq

/-- The contents of an open file and the position in it. -/
structure File where
  contents : List Byte
  pos : Nat
  deriving DecidableEq

namespace File

def read (f : File) (numBytes : Nat) : File × List Byte :=
  ({ f with pos := f.pos + ((f.contents.drop f.pos).take numBytes).length },
    (f.contents.drop f.pos).take numBytes)

/-- Where a seek leads. -/
def target (f : File) (offset : Int) : Whence → Option Int
  | .SEEK_SET => some offset
  | .SEEK_CUR => some (f.pos + offset)
  | .SEEK_END => some (f.contents.length + offset)
  | .other => none

/-- `lseek64`, which gives -1 where the target is not between 0 and the largest offset. -/
def lseek (f : File) (maxOffset : Nat) (offset : Int) (whence : Whence) : File × Int :=
  match f.target offset whence with
  | none => (f, -1)
  | some newPos =>
    if 0 ≤ newPos ∧ newPos ≤ maxOffset then ({ f with pos := newPos.toNat }, newPos) else (f, -1)

end File

def INVALID_BLOCK_INDEX : BitVec 64 := -1

/-- The largest `off64_t`. -/
def OFF64_MAX : Nat := 2^63 - 1

structure LockFile where
  file : File
  contentType : List Byte
  encryptedSessionKey : List Byte
  dataOffset : Nat
  filePos : Nat
  encryptionKey : List Byte
  keyStream : List Byte
  blockIndex : BitVec 64
  deriving DecidableEq

/-- The loops of `CalculateCounter` from byte `i` on. -/
def addBlockIndex (blockIndex : BitVec 64) (i : Nat) (carry : Byte) : List Byte → List Byte
  | [] => []
  | b :: nonce =>
    if i < 8 then
      let part := b + (blockIndex >>> (8 * i)).setWidth 8
      let carry' := if part.toNat < b.toNat ∨ (part + carry).toNat < part.toNat then 1 else 0
      (part + carry) :: addBlockIndex blockIndex (i + 1) carry' nonce
    else
      let carry' := if (b + carry).toNat < b.toNat then 1 else 0
      (b + carry) :: addBlockIndex blockIndex (i + 1) carry' nonce

def calculateCounter (nonce : List Byte) (blockIndex : BitVec 64) : List Byte :=
  addBlockIndex blockIndex 0 0 (nonce.take AES_BLOCK_SIZE)

/-- `ValidatePadding` of `FwdLockGlue.c`, for the bytes from the end of the key on. -/
def validatePadding (data : List Byte) (decryptedKeyLength : Nat) : Bool :=
  let padding := AES_BLOCK_SIZE - decryptedKeyLength % AES_BLOCK_SIZE
  (data.drop decryptedKeyLength).take padding = List.replicate padding (BitVec.ofNat 8 padding)

section

variable (AES_encrypt AES_cbc_decrypt : List Byte → List Byte → List Byte)

/-- `DecryptKey` of `FwdLockGlue.c`, which fails where the padding is not right. -/
def decryptKey (encryptedKey : List Byte) (decryptedKeyLength : Nat) : Option (List Byte) :=
  let dataLength := encryptedKey.length - AES_BLOCK_SIZE
  let data := AES_cbc_decrypt ((encryptedKey.drop dataLength).take AES_BLOCK_SIZE)
    (encryptedKey.take dataLength)
  if validatePadding data decryptedKeyLength then some (data.take decryptedKeyLength) else none

namespace LockFile

/-- A read of a part of the header, which fails where the file is too short. -/
def readExactly (f : File) (numBytes : Nat) : Option (File × List Byte) :=
  let (f, data) := f.read numBytes
  if data.length = numBytes then some (f, data) else none

/-- `attach`. The signatures are read and not checked. -/
def attach (f : File) : Option LockFile := do
  let (f, topHeader) ← readExactly f TOP_HEADER_SIZE
  if topHeader.take topHeaderTemplate.length ≠ topHeaderTemplate then none
  else
    let (f, contentType) ← readExactly f (topHeader.getD 7 0).toNat
    let (f, encryptedSessionKey) ← readExactly f (getEncryptedKeyLength KEY_SIZE)
    let (f, _) ← readExactly f SHA1_HASH_SIZE
    let (f, _) ← readExactly f SHA1_HASH_SIZE
    let sessionKey ← decryptKey AES_cbc_decrypt encryptedSessionKey KEY_SIZE
    some
      { file := f
        contentType
        encryptedSessionKey
        dataOffset := contentType.length + encryptedSessionKey.length + TOP_HEADER_SIZE +
          2 * SHA1_HASH_SIZE
        filePos := 0
        encryptionKey := (deriveKeys AES_encrypt sessionKey).1
        keyStream := []
        blockIndex := INVALID_BLOCK_INDEX }

def decryptByte (l : LockFile) (b : Byte) : LockFile × Byte :=
  let blockIndex := BitVec.ofNat 64 (l.filePos / AES_BLOCK_SIZE)
  let l :=
    if blockIndex ≠ l.blockIndex then
      { l with
        keyStream := AES_encrypt l.encryptionKey (calculateCounter l.encryptedSessionKey blockIndex)
        blockIndex := blockIndex }
    else l
  (l, b ^^^ l.keyStream.getD (l.filePos % AES_BLOCK_SIZE) 0)

/-- The loop of `read` over the bytes that were read. -/
def decryptBytes (l : LockFile) : List Byte → LockFile × List Byte
  | [] => (l, [])
  | b :: data =>
    let (l, b) := l.decryptByte AES_encrypt b
    let (l, data) := { l with filePos := l.filePos + 1 }.decryptBytes data
    (l, b :: data)

def read (l : LockFile) (numBytes : Nat) : LockFile × List Byte :=
  let (f, data) := l.file.read numBytes
  { l with file := f }.decryptBytes AES_encrypt data

/-- A position before the data is taken back. -/
def lseek (l : LockFile) (offset : Int) (whence : Whence) : LockFile × Int :=
  let (f, newFilePos) :=
    l.file.lseek OFF64_MAX (if whence = .SEEK_SET then l.dataOffset + offset else offset) whence
  if newFilePos = -1 then ({ l with file := f }, -1)
  else if newFilePos < l.dataOffset then
    ({ l with file := (f.lseek OFF64_MAX (l.dataOffset + l.filePos) .SEEK_SET).1 }, -1)
  else ({ l with file := f, filePos := (newFilePos - l.dataOffset).toNat }, newFilePos - l.dataOffset)

end LockFile

end

end MediaFramework.ForwardLock

/-!
## One key stream

The converter increments its counter after every block, the decoder adds the number of a block to
the nonce. Both come to the same key stream.
-/

namespace MediaFramework.ForwardLock

open LittleEndian

theorem incrementCounter_eq (counter : List Byte) :
    Session.incrementCounter counter = increment counter := by
  induction counter with
  | nil => rfl
  | cons b counter ih => rw [Session.incrementCounter, increment, ih]

/-- A digit of a sum of two digits and a carry. -/
theorem digit_add (b d carry : Byte) (hcarry : carry.toNat ≤ 1) :
    (b + d + carry).toNat +
        256 * (if (b + d).toNat < b.toNat ∨ (b + d + carry).toNat < (b + d).toNat then 1 else 0) =
      b.toNat + d.toNat + carry.toNat := by
  have hb := b.isLt
  have hd := d.isLt
  have hpart : (b + d).toNat = (b.toNat + d.toNat) % 256 := BitVec.toNat_add b d
  have hsum : (b + d + carry).toNat = ((b + d).toNat + carry.toNat) % 256 :=
    BitVec.toNat_add (b + d) carry
  rw [hsum, hpart]
  split <;> omega

theorem toNat_carry (c : Prop) [Decidable c] :
    (if c then (1 : Byte) else 0).toNat = if c then 1 else 0 := by
  split <;> rfl

theorem toNat_carry_le (c : Prop) [Decidable c] : (if c then (1 : Byte) else 0).toNat ≤ 1 := by
  rw [toNat_carry]
  split <;> decide

/-- The lowest digit of a sum, in front of the others. -/
theorem value_add_cons {b d sum carry carry' : Byte} {nonce rest : List Byte} {q : Nat}
    (hdigit : sum.toNat + 256 * carry'.toNat = b.toNat + d.toNat + carry.toNat)
    (hq : q % 256 = d.toNat)
    (hrest : value rest = (value nonce + q / 256 + carry'.toNat) % 256 ^ nonce.length) :
    value (sum :: rest) = (value (b :: nonce) + q + carry.toNat) % 256 ^ (b :: nonce).length := by
  have hsplit := Nat.div_add_mod q 256
  have hall : value (b :: nonce) + q + carry.toNat =
      sum.toNat + 256 * (value nonce + q / 256 + carry'.toNat) := by
    rw [value]
    omega
  rw [value, hrest, hall, List.length_cons, Nat.pow_succ, Nat.mul_comm _ 256,
    add_mul_mod _ _ _ sum.isLt]

/-- The number that the loops of `CalculateCounter` come to. -/
theorem value_addBlockIndex (blockIndex : BitVec 64) (i : Nat) (carry : Byte)
    (hcarry : carry.toNat ≤ 1) (nonce : List Byte) :
    value (addBlockIndex blockIndex i carry nonce) =
      (value nonce + blockIndex.toNat / 256 ^ i + carry.toNat) % 256 ^ nonce.length := by
  induction nonce generalizing i carry with
  | nil => rw [addBlockIndex, value, List.length_nil, Nat.pow_zero, Nat.mod_one]
  | cons b nonce ih =>
    have hrest (c : Byte) (hc : c.toNat ≤ 1) :
        value (addBlockIndex blockIndex (i + 1) c nonce) =
          (value nonce + blockIndex.toNat / 256 ^ i / 256 + c.toNat) % 256 ^ nonce.length := by
      rw [Nat.div_div_eq_div_mul, ← Nat.pow_succ]
      exact ih (i + 1) c hc
    rw [addBlockIndex]
    split
    · refine value_add_cons (d := (blockIndex >>> (8 * i)).setWidth 8) ?_ ?_ (hrest _ ?_)
      · rw [toNat_carry]
        exact digit_add b _ carry hcarry
      · rw [BitVec.toNat_setWidth, BitVec.toNat_ushiftRight, Nat.shiftRight_eq_div_pow,
          Nat.pow_mul]
      · exact toNat_carry_le _
    · next hi =>
      -- all digits of the block index have been added
      have hzero : blockIndex.toNat / 256 ^ i = 0 := by
        apply Nat.div_eq_of_lt
        calc blockIndex.toNat < 256 ^ 8 := blockIndex.isLt
          _ ≤ 256 ^ i := Nat.pow_le_pow_right (by decide) (Nat.le_of_not_lt hi)
      have hdigit := digit_add b 0 carry hcarry
      rw [show b + 0 = b from BitVec.add_zero b] at hdigit
      refine value_add_cons (d := 0) ?_ ?_ (hrest _ ?_)
      · rw [toNat_carry, ← hdigit]
        simp only [Nat.lt_irrefl, false_or]
      · rw [hzero]
        rfl
      · exact toNat_carry_le _

@[simp]
theorem length_addBlockIndex (blockIndex : BitVec 64) (i : Nat) (carry : Byte)
    (nonce : List Byte) : (addBlockIndex blockIndex i carry nonce).length = nonce.length := by
  induction nonce generalizing i carry with
  | nil => rfl
  | cons b nonce ih =>
    rw [addBlockIndex]
    split <;> rw [List.length_cons, List.length_cons, ih]

/-- The counter of a block is the nonce, incremented once for each block before. -/
theorem calculateCounter_eq (nonce : List Byte) {block : Nat} (hblock : block < 2 ^ 64) :
    calculateCounter nonce (BitVec.ofNat 64 block) =
      increment^[block] (nonce.take AES_BLOCK_SIZE) := by
  apply value_injective
  · rw [calculateCounter, length_addBlockIndex, length_iterate_increment]
  · rw [calculateCounter, value_addBlockIndex _ _ 0 (Nat.zero_le 1), value_iterate_increment,
      BitVec.toNat_ofNat, Nat.mod_eq_of_lt hblock, Nat.pow_zero, Nat.div_one]
    rfl

end MediaFramework.ForwardLock
