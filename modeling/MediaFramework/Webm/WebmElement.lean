import MediaFramework.Lib.Ebml
import MediaFramework.Lib.Ring

/-!
# Coded numbers

`media/libstagefright/webm/EbmlUtil.cpp`. Bytes are stored to a memory from an offset on. A shift by
the width of its type or more, which is undefined, has no result.
-/

namespace MediaFramework.Webm

open Ebml

def NTZ_TABLE : List Int :=
  [32, 0, 1, 12, 2, 6, -1, 13, 3, -1, 7, -1, -1, -1, -1, 14,
    10, 4, -1, -1, 8, -1, -1, 25, -1, -1, -1, -1, -1, 21, 27, 15,
    31, 11, 5, -1, -1, -1, -1, -1, 9, -1, -1, 24, -1, -1, 20, 26,
    30, -1, -1, -1, -1, 23, -1, 19, 29, -1, 22, 18, 28, 17, 16, -1]

def numberOfTrailingZeros32 (i : BitVec 32) : Int :=
  let i64 := i.signExtend 64
  let i64 := (i64 &&& -i64) * 0x0450FBAF
  let u := i64.setWidth 32
  NTZ_TABLE.getD (u >>> 26).toNat (-1)

def highestOneBit (n : BitVec 64) : BitVec 64 :=
  let n := n ||| n >>> 1
  let n := n ||| n >>> 2
  let n := n ||| n >>> 4
  let n := n ||| n >>> 8
  let n := n ||| n >>> 16
  let n := n ||| n >>> 32
  n - n >>> 1

def powerOf2 (u : BitVec 64) : BitVec 64 :=
  let powerOf2 := highestOneBit u
  if powerOf2 ≠ 0 then powerOf2 else 1

def numberOfTrailingZeros (u : BitVec 64) : Int :=
  let low := u.setWidth 32
  if low ≠ 0 then numberOfTrailingZeros32 low
  else 32 + numberOfTrailingZeros32 ((u >>> 32).setWidth 32)

/-- One in a type of `w` bits, shifted. -/
def shiftOne (w : Nat) (shiftWidth : Int) : Option (BitVec w) :=
  if 0 ≤ shiftWidth ∧ shiftWidth < w then some (1 <<< shiftWidth.toNat) else none

/-- The descriptor is shifted as an `int`. -/
def encodeUnsigned (u : BitVec 64) : Option (BitVec 64) :=
  let p := powerOf2 u
  let p := if u + 1#64 = p <<< 1 then p <<< 1 else p
  let shiftWidth := (7 + numberOfTrailingZeros p) / 7 * 7
  (shiftOne 32 shiftWidth).map fun lengthDescriptor => lengthDescriptor.signExtend 64 ||| u

def encodeUnsignedWidth (u : BitVec 64) (width : Int) : Option (BitVec 64) :=
  let shiftWidth := 7 * width
  (shiftOne 64 shiftWidth).map fun lengthDescriptor => lengthDescriptor ||| u

def sizeOf (u : BitVec 64) : Int := numberOfTrailingZeros (powerOf2 u) / 8 + 1

/-- The loop of `serializeCodedUnsigned`, from the last byte on. -/
def storeBytes : Nat → BitVec 64 → List Byte → Nat → List Byte
  | 0, _, buf, _ => buf
  | i + 1, u, buf, bary => storeBytes i (u >>> 8) (buf.set (bary + i) (u.setWidth 8)) bary

/-- The memory with a number stored at `bary`, and the length of the number. -/
def serializeCodedUnsigned (u : BitVec 64) (buf : List Byte) (bary : Nat) : List Byte × Int :=
  let unsignedLength := sizeOf u
  (storeBytes unsignedLength.toNat u buf bary, unsignedLength)

/-! ### The highest bit -/

/-- The bits of a number and those up to `k` places below them. -/
def Smeared (n : BitVec 64) (k : Nat) (m : BitVec 64) : Prop :=
  ∀ i, m.getLsbD i = true ↔ ∃ j < k, n.getLsbD (i + j) = true

theorem Smeared.shift {n m : BitVec 64} {k : Nat} (h : Smeared n k m) :
    Smeared n (2 * k) (m ||| m >>> k) := by
  intro i
  rw [BitVec.getLsbD_or, BitVec.getLsbD_ushiftRight, Bool.or_eq_true, h i, h (k + i)]
  constructor
  · rintro (⟨j, hj, hbit⟩ | ⟨j, hj, hbit⟩)
    · exact ⟨j, by omega, hbit⟩
    · refine ⟨k + j, by omega, ?_⟩
      rw [← Nat.add_assoc, Nat.add_comm i]
      exact hbit
  · rintro ⟨j, hj, hbit⟩
    by_cases hlow : j < k
    · exact .inl ⟨j, hlow, hbit⟩
    · refine .inr ⟨j - k, by omega, ?_⟩
      have hsum : k + i + (j - k) = i + j := by omega
      rw [hsum]
      exact hbit

theorem toNat_highestOneBit {n : BitVec 64} (hne : n ≠ 0) :
    (highestOneBit n).toNat = 2 ^ Nat.log2 n.toNat := by
  have hpos : n.toNat ≠ 0 := fun h => hne (BitVec.eq_of_toNat_eq h)
  have hone : Smeared n 1 n := by
    intro i
    constructor
    · intro hbit
      exact ⟨0, by decide, hbit⟩
    · rintro ⟨j, hj, hbit⟩
      obtain rfl : j = 0 := by omega
      exact hbit
  have hall := hone.shift.shift.shift.shift.shift.shift
  rw [highestOneBit]
  simp only [Nat.reduceMul] at hall
  generalize n ||| n >>> 1 = n₁ at hall ⊢
  generalize n₁ ||| n₁ >>> 2 = n₂ at hall ⊢
  generalize n₂ ||| n₂ >>> 4 = n₃ at hall ⊢
  generalize n₃ ||| n₃ >>> 8 = n₄ at hall ⊢
  generalize n₄ ||| n₄ >>> 16 = n₅ at hall ⊢
  generalize n₅ ||| n₅ >>> 32 = m at hall ⊢
  have hlt : n.toNat < 2 ^ (Nat.log2 n.toNat + 1) := Nat.lt_log2_self
  have hle : 2 ^ Nat.log2 n.toNat ≤ n.toNat := Nat.log2_self_le hpos
  have hsmall : Nat.log2 n.toNat < 64 := (Nat.log2_lt hpos).mpr n.isLt
  have hm : m.toNat = 2 ^ (Nat.log2 n.toNat + 1) - 1 := by
    apply Nat.eq_of_testBit_eq
    intro i
    rw [Nat.testBit_two_pow_sub_one, BitVec.testBit_toNat, Bool.eq_iff_iff, hall i,
      decide_eq_true_eq]
    constructor
    · rintro ⟨j, -, hbit⟩
      by_contra hhigh
      have hfalse : n.toNat.testBit (i + j) = false := by
        apply Nat.testBit_lt_two_pow
        apply hlt.trans_le
        exact Nat.pow_le_pow_right (by decide) (by omega)
      rw [BitVec.testBit_toNat, hbit] at hfalse
      cases hfalse
    · intro hi
      refine ⟨Nat.log2 n.toNat - i, by omega, ?_⟩
      rw [Nat.add_sub_cancel' (by omega), ← BitVec.testBit_toNat]
      exact Nat.testBit_log2 hpos
  have hpow := Nat.two_pow_pos (Nat.log2 n.toNat)
  rw [BitVec.toNat_sub_of_le, BitVec.toNat_ushiftRight, hm, Nat.shiftRight_eq_div_pow, pow_succ]
  · omega
  · rw [BitVec.le_def, BitVec.toNat_ushiftRight, Nat.shiftRight_eq_div_pow]
    omega

theorem toNat_powerOf2 (u : BitVec 64) : (powerOf2 u).toNat = 2 ^ Nat.log2 u.toNat := by
  rw [powerOf2]
  by_cases hzero : u = 0
  · rw [hzero]
    decide
  · have hbit := toNat_highestOneBit hzero
    have hpos := Nat.two_pow_pos (Nat.log2 u.toNat)
    rw [if_pos, hbit]
    intro hnone
    rw [hnone] at hbit
    have hz : (0 : BitVec 64).toNat = 0 := rfl
    omega

theorem numberOfTrailingZeros_eq {p : BitVec 64} {k : Nat} (hp : p.toNat = 2 ^ k) (hk : k < 64) :
    numberOfTrailingZeros p = k := by
  have hall : ∀ k : Fin 64, numberOfTrailingZeros (BitVec.ofNat 64 (2 ^ k.val)) = k.val := by
    decide
  rw [← hall ⟨k, hk⟩, ← hp, BitVec.ofNat_toNat, BitVec.setWidth_eq]

theorem log2_lt (u : BitVec 64) : Nat.log2 u.toNat < 64 := by
  by_cases hzero : u.toNat = 0
  · rw [hzero]
    decide
  · exact (Nat.log2_lt hzero).mpr u.isLt

theorem sizeOf_eq (u : BitVec 64) : sizeOf u = (Nat.log2 u.toNat / 8 + 1 : Nat) := by
  rw [sizeOf, numberOfTrailingZeros_eq (toNat_powerOf2 u) (log2_lt u)]
  omega

/-! ### Coded numbers -/

/-- The least length for a number of which not all bits are set. -/
def codedWidth (n : Nat) : Nat := Nat.log2 (n + 1) / 7 + 1

theorem codedWidth_le_iff (n k : Nat) : codedWidth n ≤ k ↔ n + 1 < 2 ^ (7 * k) := by
  rw [← Nat.log2_lt (Nat.add_one_ne_zero n), codedWidth]
  omega

/-- The power of two that `encodeUnsigned` comes to. -/
theorem toNat_adjusted {u : BitVec 64} (hu : u.toNat < 2 ^ 56 - 1) :
    (if u + 1#64 = powerOf2 u <<< 1 then powerOf2 u <<< 1 else powerOf2 u).toNat =
      2 ^ Nat.log2 (u.toNat + 1) := by
  have hpower := toNat_powerOf2 u
  have hsucc : (u + 1#64).toNat = u.toNat + 1 := by
    have hone : (1#64).toNat = 1 := rfl
    rw [BitVec.toNat_add, hone, Nat.mod_eq_of_lt (by omega)]
  have hlog : Nat.log2 u.toNat < 56 := by
    by_cases hzero : u.toNat = 0
    · rw [hzero]
      decide
    · exact (Nat.log2_lt hzero).mpr (by omega)
  have hle : 2 ^ (Nat.log2 u.toNat + 1) ≤ 2 ^ 56 := Nat.pow_le_pow_right (by decide) hlog
  have hdouble : (powerOf2 u <<< 1).toNat = 2 ^ (Nat.log2 u.toNat + 1) := by
    rw [BitVec.toNat_shiftLeft, hpower, Nat.shiftLeft_eq, pow_one, ← pow_succ,
      Nat.mod_eq_of_lt (by omega)]
  have hiff : u + 1#64 = powerOf2 u <<< 1 ↔ u.toNat + 1 = 2 ^ (Nat.log2 u.toNat + 1) := by
    rw [← BitVec.toNat_inj, hsucc, hdouble]
  by_cases hfull : u.toNat + 1 = 2 ^ (Nat.log2 u.toNat + 1)
  · rw [if_pos (hiff.mpr hfull), hdouble, hfull, Nat.log2_two_pow]
  · rw [if_neg (fun h => hfull (hiff.mp h)), hpower]
    have hlt : u.toNat < 2 ^ (Nat.log2 u.toNat + 1) := Nat.lt_log2_self
    by_cases hzero : u.toNat = 0
    · rw [hzero]
      decide
    · have hge : 2 ^ Nat.log2 u.toNat ≤ u.toNat := Nat.log2_self_le hzero
      rw [log2_eq (by omega) (by omega : u.toNat + 1 < 2 ^ (Nat.log2 u.toNat + 1))]

theorem toNat_or_descriptor {u d : BitVec 64} {k : Nat} (hd : d.toNat = 2 ^ (7 * k))
    (hu : u.toNat < 2 ^ (7 * k)) : (d ||| u).toNat = coded k u.toNat := by
  have hor := Nat.two_pow_add_eq_or_of_lt hu 1
  rw [Nat.mul_one] at hor
  rw [BitVec.toNat_or, hd, coded, hor]

/-- A number is coded in the least number of bytes, as long as the shift is one of an `int`. -/
theorem encodeUnsigned_eq {u : BitVec 64} (hu : u.toNat < 2 ^ 56 - 1) :
    (u.toNat < 2 ^ 28 - 1 →
      ∃ c, encodeUnsigned u = some c ∧ c.toNat = coded (codedWidth u.toNat) u.toNat) ∧
    (¬u.toNat < 2 ^ 28 - 1 → encodeUnsigned u = none) := by
  have hlog : Nat.log2 (u.toNat + 1) < 56 := (Nat.log2_lt (by omega)).mpr (by omega)
  have hntz := numberOfTrailingZeros_eq (toNat_adjusted hu) (by omega)
  have hshift : (7 + (Nat.log2 (u.toNat + 1) : Int)) / 7 * 7 = (7 * codedWidth u.toNat : Nat) := by
    rw [codedWidth]
    omega
  have hwidth := codedWidth_le_iff u.toNat 4
  have hfits := (codedWidth_le_iff u.toNat (codedWidth u.toNat)).mp le_rfl
  rw [encodeUnsigned, hntz, hshift, shiftOne]
  constructor
  · intro hsmall
    have hle : codedWidth u.toNat ≤ 4 := hwidth.mpr (by omega)
    rw [if_pos ⟨by omega, by omega⟩]
    refine ⟨_, rfl, toNat_or_descriptor ?_ (by omega)⟩
    have hall : ∀ k : Fin 5, (((1 : BitVec 32) <<< (7 * k.val)).signExtend 64).toNat =
        2 ^ (7 * k.val) := by
      decide
    exact hall ⟨codedWidth u.toNat, by omega⟩
  · intro hlarge
    rw [if_neg]
    · rfl
    · rintro ⟨-, hlt⟩
      apply hlarge
      have hle : codedWidth u.toNat ≤ 4 := by omega
      have hlt := hwidth.mp hle
      omega

theorem encodeUnsignedWidth_eq {u : BitVec 64} {k : Nat} (hk : k ≤ 8)
    (hu : u.toNat < 2 ^ (7 * k)) :
    ∃ c, encodeUnsignedWidth u k = some c ∧ c.toNat = coded k u.toNat := by
  rw [encodeUnsignedWidth, shiftOne, if_pos ⟨by omega, by omega⟩]
  refine ⟨_, rfl, toNat_or_descriptor ?_ hu⟩
  have hall : ∀ k : Fin 9, ((1 : BitVec 64) <<< (7 * k.val)).toNat = 2 ^ (7 * k.val) := by decide
  exact hall ⟨k, by omega⟩

/-! ### Stored numbers -/

theorem storeBytes_eq (k : Nat) (u : BitVec 64) (buf : List Byte) (bary : Nat)
    (h : bary + k ≤ buf.length) :
    storeBytes k u buf bary = Ring.poke buf bary (bigEndian k u.toNat) := by
  induction k generalizing u buf with
  | zero => rw [storeBytes, bigEndian, Ring.poke_nil]
  | succ k ih =>
    have hlow : u.setWidth 8 = BitVec.ofNat 8 u.toNat := by
      apply BitVec.eq_of_toNat_eq
      rw [BitVec.toNat_setWidth, BitVec.toNat_ofNat]
    have hrest : (u >>> 8).toNat = u.toNat / 256 := by
      rw [BitVec.toNat_ushiftRight, Nat.shiftRight_eq_div_pow]
    rw [storeBytes, ih _ _ (by rw [List.length_set]; omega), hrest, bigEndian_concat, hlow]
    exact Ring.poke_set _ (length_bigEndian _ _) (by omega)

/-- The bytes of a coded number, or of a number in as few bytes as it takes. -/
theorem serializeCodedUnsigned_eq {u : BitVec 64} {k bary : Nat} {buf : List Byte}
    (hk : Nat.log2 u.toNat / 8 + 1 = k) (h : bary + k ≤ buf.length) :
    serializeCodedUnsigned u buf bary = (Ring.poke buf bary (bigEndian k u.toNat), (k : Int)) := by
  rw [serializeCodedUnsigned, sizeOf_eq, hk, Int.toNat_natCast, storeBytes_eq _ _ _ _ h]

theorem log2_coded {n k : Nat} (h : IsId k n) : Nat.log2 n / 8 + 1 = k := by
  have hlog := log2_eq h.2.2.1 h.2.2.2
  have hlow := h.1
  have hhigh := h.2.1
  omega

theorem isId_coded {k value : Nat} (hk : 1 ≤ k ∧ k ≤ 8) (hvalue : value < 2 ^ (7 * k)) :
    IsId k (coded k value) := by
  refine ⟨hk.1, hk.2, ?_, ?_⟩
  · rw [coded]
    omega
  · rw [coded, pow_succ]
    omega

end MediaFramework.Webm

/-!
## Elements that are written

`media/libstagefright/webm/WebmElement.cpp`. An element is written to a memory from an offset on;
sizes are unbounded numbers.
-/

namespace MediaFramework.Webm

open Ebml

def kMkvVoid : BitVec 64 := 0xEC

def kMkvSimpleBlock : BitVec 64 := 0xA3

def kMkvUnknownLength : BitVec 64 := 0x01ffffffffffffff

inductive WebmElement
  | webmUnsigned (mId mValue : BitVec 64)
  | webmBinary (mId : BitVec 64) (mRef : List Byte)
  | webmString (mId : BitVec 64) (mStr : List Byte)
  | webmSimpleBlock (mTrackNum : BitVec 32) (mRelTimecode : BitVec 16) (mKey : Bool)
    (mRef : List Byte)
  | ebmlVoid (totalSize : Nat)
  | webmMaster (mId : BitVec 64) (mChildren : List WebmElement)

namespace WebmElement

def mId : WebmElement → BitVec 64
  | webmUnsigned mId _ => mId
  | webmBinary mId _ => mId
  | webmString mId _ => mId
  | webmSimpleBlock .. => kMkvSimpleBlock
  | ebmlVoid _ => kMkvVoid
  | webmMaster mId _ => mId

def voidSize (totalSize : Int) : Int :=
  if totalSize < 2 then -1
  else if totalSize < 9 then totalSize - 2
  else totalSize - 9

def mSizeWidth (totalSize : Nat) : Int := totalSize - sizeOf kMkvVoid - voidSize totalSize

/-- The size of a payload as it is coded. -/
def codedSize (e : WebmElement) (mSize : Nat) : Option (BitVec 64) :=
  match e with
  | ebmlVoid totalSize => encodeUnsignedWidth (BitVec.ofNat 64 mSize) (mSizeWidth totalSize)
  | webmMaster _ _ =>
    if mSize = 0 then some kMkvUnknownLength else encodeUnsigned (BitVec.ofNat 64 mSize)
  | _ => encodeUnsigned (BitVec.ofNat 64 mSize)

/-- The memory with the size of a payload stored at `off`, and the length of the size. -/
def serializePayloadSize (e : WebmElement) (mSize : Nat) (buf : List Byte) (off : Nat) :
    Option (List Byte × Int) :=
  (e.codedSize mSize).map fun u => serializeCodedUnsigned u buf off

/-- `totalSize` of an element with a payload of `mSize` bytes. -/
def totalSizeOf (e : WebmElement) (mSize : Nat) : Option Nat :=
  let buf := List.replicate 8 0
  (e.serializePayloadSize mSize buf 0).map fun size => ((sizeOf e.mId).toNat + size.2.toNat) + mSize

mutual

/-- The size of the payload, as the constructors set it. -/
def mSize : WebmElement → Option Nat
  | webmUnsigned _ mValue => some (sizeOf mValue).toNat
  | webmBinary _ mRef => some mRef.length
  | webmString _ mStr => some mStr.length
  | webmSimpleBlock _ _ _ mRef => some (mRef.length + 4)
  | ebmlVoid totalSize => if voidSize totalSize ≥ 0 then some (voidSize totalSize).toNat else none
  | webmMaster _ mChildren => childrenSum mChildren

def childrenSum : List WebmElement → Option Nat
  | [] => some 0
  | e :: es =>
    match mSize e with
    | none => none
    | some size =>
      match e.totalSizeOf size with
      | none => none
      | some total => (childrenSum es).map (total + ·)

end

def totalSize (e : WebmElement) : Option Nat := e.mSize.bind e.totalSizeOf

/-- `serializeInto` of an element with a payload that is written by `serializePayload`. -/
def serializeWith (e : WebmElement) (serializePayload : List Byte → Nat → Option (List Byte))
    (buf : List Byte) (off : Nat) : Option (List Byte × Nat) :=
  match e.mSize with
  | none => none
  | some mSize =>
    let (buf, head) := serializeCodedUnsigned e.mId buf off
    match e.serializePayloadSize mSize buf (off + head.toNat) with
    | none => none
    | some (buf, neck) =>
      match serializePayload buf (off + head.toNat + neck.toNat) with
      | none => none
      | some buf => some (buf, head.toNat + neck.toNat + mSize)

mutual

def serializePayload : WebmElement → List Byte → Nat → Option (List Byte)
  | webmUnsigned _ mValue, buf, off => some (serializeCodedUnsigned mValue buf off).1
  | webmBinary _ mRef, buf, off => some (Ring.poke buf off mRef)
  | webmString _ mStr, buf, off => some (Ring.poke buf off mStr)
  | webmSimpleBlock mTrackNum mRelTimecode mKey mRef, buf, off =>
    (encodeUnsigned (mTrackNum.signExtend 64)).map fun u =>
      let buf := (serializeCodedUnsigned u buf off).1
      let buf := buf.set (off + 1) (((mRelTimecode.signExtend 32 &&& 0xff00) >>> 8).setWidth 8)
      let buf := buf.set (off + 2) ((mRelTimecode.signExtend 32 &&& 0xff).setWidth 8)
      let buf := buf.set (off + 3) (if mKey then 0x80 else 0)
      Ring.poke buf (off + 4) mRef
  | ebmlVoid totalSize, buf, off =>
    some (Ring.poke buf off (List.replicate (voidSize totalSize).toNat 0))
  | webmMaster _ mChildren, buf, off => serializeChildren mChildren buf off

def serializeChildren : List WebmElement → List Byte → Nat → Option (List Byte)
  | [], buf, _ => some buf
  | e :: es, buf, off =>
    match serializeWith e (serializePayload e) buf off with
    | none => none
    | some (buf, _) =>
      match e.totalSize with
      | none => none
      | some total => serializeChildren es buf (off + total)

end

def serializeInto (e : WebmElement) (buf : List Byte) (off : Nat) : Option (List Byte × Nat) :=
  e.serializeWith e.serializePayload buf off

end WebmElement

end MediaFramework.Webm
