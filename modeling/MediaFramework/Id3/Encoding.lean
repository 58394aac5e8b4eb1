import MediaFramework.Id3.Unsynchronization
import Mathlib.Algebra.Ring.Nat

/-!
# Encodings of tags

The bytes of a tag by version 2, 3 or 4 of the format: frames, zeros behind them, an extended header
before them, and unsynchronization of the whole or of single frames.
-/

namespace MediaFramework.Id3

open Ebml (bigEndian number)

/-! ### Numbers -/

theorem ofNat_and_highBit : ∀ n < 2 ^ 7, BitVec.ofNat 8 n &&& 0x80 = 0 := by decide

theorem and_low (n : Nat) : n &&& 0x7F = n % 2 ^ 7 := Nat.and_two_pow_sub_one_eq_mod n 7

theorem shift_or {x byte : Nat} (h : byte < 2 ^ 7) : x <<< 7 ||| byte = x * 2 ^ 7 + byte := by
  rw [← Nat.shiftLeft_add_eq_or_of_lt h, Nat.shiftLeft_eq]

/-- One more byte of a syncsafe number. -/
theorem parse_step {x n : Nat} (hn : n < 2 ^ 7) :
    (if BitVec.ofNat 8 n &&& 0x80 ≠ 0 then none
      else some (x <<< 7 ||| (BitVec.ofNat 8 n).toNat)) = some (x * 2 ^ 7 + n) := by
  rw [if_neg (not_not.mpr (ofNat_and_highBit n hn)), BitVec.toNat_ofNat,
    Nat.mod_eq_of_lt (by omega), shift_or hn]

@[simp]
theorem length_syncsafe (x : Nat) : (syncsafe x).length = 4 := rfl

/-- No byte of a syncsafe number is `0xFF`. -/
theorem ne_of_mem_syncsafe {x : Nat} {byte : Byte} (h : byte ∈ syncsafe x) : byte ≠ 0xFF := by
  have hlow : ∀ n, BitVec.ofNat 8 (n &&& 0x7F) ≠ 0xFF := by
    intro n hn
    have hmod := congrArg BitVec.toNat hn
    rw [and_low, BitVec.toNat_ofNat] at hmod
    have hff : (0xFF : Byte).toNat = 255 := rfl
    omega
  simp only [syncsafe, List.mem_cons, List.not_mem_nil, or_false] at h
  obtain rfl | rfl | rfl | rfl := h <;> exact hlow _

theorem parse_syncsafe {x : Nat} (hx : x < 2 ^ 28) : ParseSyncsafeInteger (syncsafe x) = some x := by
  have hlow : ∀ n, n % 2 ^ 7 < 2 ^ 7 := fun n => Nat.mod_lt _ (by decide)
  rw [ParseSyncsafeInteger, syncsafe]
  simp only [and_low, Nat.shiftRight_eq_div_pow]
  simp only [List.foldlM_cons, List.foldlM_nil, parse_step (hlow _), Option.bind_eq_bind,
    Option.bind_some]
  show some _ = some _
  congr 1
  omega

/-- A number whose first byte is 1 has 22 bits. -/
theorem le_of_parse_one {a b c : Byte} {x : Nat} (h : ParseSyncsafeInteger [1, a, b, c] = some x) :
    2 ^ 21 ≤ x := by
  have hgrows : ∀ {x byte : Nat}, x * 2 ^ 7 ≤ x <<< 7 ||| byte := by
    intro x byte
    rw [← Nat.shiftLeft_eq]
    exact Nat.left_le_or
  simp only [ParseSyncsafeInteger, List.foldlM_cons, List.foldlM_nil, Option.bind_eq_bind,
    Option.bind_eq_some_iff] at h
  obtain ⟨x₁, hx₁, x₂, hx₂, x₃, hx₃, x₄, hx₄, hx⟩ := h
  have hone : x₁ = 1 := by
    rw [if_neg (by decide)] at hx₁
    exact (Option.some.inj hx₁).symm
  have hnext : ∀ {x y : Nat} {byte : Byte},
      (if byte &&& 0x80 ≠ 0 then none else some (x <<< 7 ||| byte.toNat)) = some y →
        x * 2 ^ 7 ≤ y := by
    intro x y byte hy
    split at hy
    · cases hy
    · cases hy
      exact hgrows
  have h₂ := hnext hx₂
  have h₃ := hnext hx₃
  have h₄ := hnext hx₄
  obtain rfl := Option.some.inj hx
  omega

/-- The two bytes of the flags of a frame. -/
def flagBytes (flags : BitVec 16) : List Byte := [(flags >>> 8).setWidth 8, flags.setWidth 8]

theorem number_flagBytes (flags : BitVec 16) : BitVec.ofNat 16 (number (flagBytes flags)) = flags := by
  apply BitVec.eq_of_toNat_eq
  have hlt := flags.isLt
  simp only [flagBytes, number, List.foldl_cons, List.foldl_nil, BitVec.toNat_ofNat,
    BitVec.toNat_setWidth, BitVec.toNat_ushiftRight, Nat.shiftRight_eq_div_pow]
  omega

/-! ### Frames -/

namespace Version

def idLength : Version → Nat
  | ID3_V2_2 => 3
  | _ => 4

def headerLength : Version → Nat
  | ID3_V2_2 => 6
  | _ => 10

/-- The flags that a frame does not have: there are none in version 2, no compression and no
encryption in the others, and those of the data are given by the data in version 4. -/
def unsupported : Version → BitVec 16
  | ID3_V2_2 => 0xFFFF
  | ID3_V2_3 => 0x00C0
  | ID3_V2_4 => 0x000F

def sizeBytes (v : Version) (n : Nat) : List Byte :=
  match v with
  | ID3_V2_2 => bigEndian 3 n
  | ID3_V2_3 => bigEndian 4 n
  | ID3_V2_4 => syncsafe n

def flagsField (v : Version) (flags : BitVec 16) : List Byte :=
  match v with
  | ID3_V2_2 => []
  | _ => flagBytes flags

end Version

structure Frame (v : Version) where
  id : List Byte
  flags : BitVec 16 := 0
  payload : List Byte
  id_length : id.length = v.idLength
  id_ne : id ≠ List.replicate v.idLength 0
  payload_ne : payload ≠ []
  supported : flags &&& v.unsupported = 0

variable {v : Version}

/-- What an iterator says of the frame. -/
def Frame.content (frame : Frame v) : List Byte × List Byte := (frame.id, frame.payload)

def Frame.bytes (frame : Frame v) : List Byte :=
  frame.id ++ (v.sizeBytes frame.payload.length ++ (v.flagsField frame.flags ++ frame.payload))

section Grouped

variable (frame : Frame .ID3_V2_4)

/-- The payload of a frame that belongs to a group starts with the byte of the group. -/
def Frame.Grouped : Prop := frame.flags &&& 0x0040 ≠ 0

instance : Decidable frame.Grouped := inferInstanceAs (Decidable (_ ≠ _))

def Frame.groupLength : Nat := if frame.Grouped then 1 else 0

/-- What is behind the byte of the group. -/
def Frame.rest : List Byte := frame.payload.drop frame.groupLength

/-- What stands behind the header, before it is unsynchronised. The data length indicator, if there
is one, comes behind the byte of the group. -/
def Frame.described (indicator : Bool) : List Byte :=
  frame.payload.take frame.groupLength ++
    ((if indicator then syncsafe frame.rest.length else []) ++ frame.rest)

end Grouped

/-- A frame of version 4 with its data as they are stored. -/
structure StoredFrame where
  frame : Frame .ID3_V2_4
  indicator : Bool
  unsynchronised : Bool
  data : List Byte
  encodes : if unsynchronised then Unsynchronised (frame.described indicator) data
    else data = frame.described indicator

namespace StoredFrame

variable (stored : StoredFrame)

def flags : BitVec 16 :=
  stored.frame.flags ||| (if stored.unsynchronised then 2 else 0) |||
    (if stored.indicator then 1 else 0)

def bytes : List Byte :=
  stored.frame.id ++ (syncsafe stored.data.length ++ (flagBytes stored.flags ++ stored.data))

end StoredFrame

def padding (n : Nat) : List Byte := List.replicate n 0

/-! ### Extended headers -/

/-- The checksum is all that an extended header of version 3 may have. -/
structure ExtendedHeaderV2_3 where
  crc : Option (BitVec 32)

/-- The size of the padding stands in the header. -/
def ExtendedHeaderV2_3.bytes (header : ExtendedHeaderV2_3) (paddingSize : Nat) : List Byte :=
  match header.crc with
  | none => bigEndian 4 6 ++ ([0x00, 0x00] ++ bigEndian 4 paddingSize)
  | some crc => bigEndian 4 10 ++ ([0x80, 0x00] ++ (bigEndian 4 paddingSize ++ bigEndian 4 crc.toNat))

/-- A flag for each of the three fields, and the bytes of those that are there. -/
structure ExtendedHeaderV2_4 where
  flags : Byte
  fields : List Byte
  short : fields.length ≤ 9

def ExtendedHeaderV2_4.bytes (header : ExtendedHeaderV2_4) : List Byte :=
  syncsafe (6 + header.fields.length) ++ (1 :: header.flags :: header.fields)

/-! ### Tags -/

/-- What a tag says, and the choices of its encoding. -/
inductive Tag
  | v2_2 (unsynchronised : Bool) (frames : List (Frame .ID3_V2_2)) (paddingSize : Nat)
  | v2_3 (unsynchronised : Bool) (header : Option ExtendedHeaderV2_3)
      (frames : List (Frame .ID3_V2_3)) (paddingSize : Nat)
  | v2_4 (header : Option ExtendedHeaderV2_4) (frames : List StoredFrame) (paddingSize : Nat)

namespace Tag

def frames : Tag → List (List Byte × List Byte)
  | v2_2 _ frames _ => frames.map Frame.content
  | v2_3 _ _ frames _ => frames.map Frame.content
  | v2_4 _ frames _ => frames.map fun stored => stored.frame.content

/-- The tag is of version 4 and has an extended header. -/
def HasExtendedHeaderV2_4 : Tag → Prop
  | v2_4 (some _) _ _ => True
  | _ => False

/-- The bytes behind the header, but for the unsynchronization of all of them. -/
def contents : Tag → List Byte
  | v2_2 _ frames paddingSize => frames.flatMap Frame.bytes ++ padding paddingSize
  | v2_3 _ header frames paddingSize =>
    (header.elim [] (·.bytes paddingSize)) ++ (frames.flatMap Frame.bytes ++ padding paddingSize)
  | v2_4 header frames paddingSize =>
    (header.elim [] (·.bytes)) ++ (frames.flatMap StoredFrame.bytes ++ padding paddingSize)

/-- All bytes behind the header are unsynchronised. -/
def unsynchronised : Tag → Bool
  | v2_2 unsynchronised _ _ => unsynchronised
  | v2_3 unsynchronised _ _ _ => unsynchronised
  | v2_4 _ _ _ => false

def version_major : Tag → Byte
  | v2_2 _ _ _ => 2
  | v2_3 _ _ _ _ => 3
  | v2_4 _ _ _ => 4

/-- The flags of a header, with any value of those that do not matter here. -/
def FlagsFor (flags : Byte) : Tag → Prop
  | v2_2 unsynchronised _ _ => flags = if unsynchronised then 0x80 else 0
  | v2_3 unsynchronised header _ _ =>
    flags &&& 0xDF = (if unsynchronised then 0x80 else 0) ||| (if header.isSome then 0x40 else 0)
  | v2_4 header _ _ => flags &&& 0x4F = if header.isSome then 0x40 else 0

/-- The bytes are a tag with this body. -/
def Encodes (tag : Tag) (body bytes : List Byte) : Prop :=
  (if tag.unsynchronised then Unsynchronised tag.contents body else body = tag.contents) ∧
    body.length ≤ kMaxMetadataSize ∧
    ∃ version_minor flags : Byte, version_minor ≠ 0xFF ∧ tag.FlagsFor flags ∧
      bytes = [0x49, 0x44, 0x33, tag.version_major, version_minor, flags] ++
        (syncsafe body.length ++ body)

end Tag

end MediaFramework.Id3
