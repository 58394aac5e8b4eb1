import MediaFramework.Webm.WebmElement
import Mathlib.Tactic.IntervalCases

/-!
# Written elements are read again

The tree that an element stands for, and that its bytes are those that are written. The size of an
element that is no `EbmlVoid` is coded with a shift of an `int`, which is good for four bytes.
-/

namespace MediaFramework.Webm.WebmElement

open Ebml

/-- An element whose size takes as few bytes as it can. -/
def leaf (mId : BitVec 64) (payload : List Byte) : Tree :=
  .leaf mId.toNat (codedWidth payload.length) payload

mutual

def treeOf : WebmElement → Tree
  | webmUnsigned mId mValue =>
    leaf mId (bigEndian (Nat.log2 mValue.toNat / 8 + 1) mValue.toNat)
  | webmBinary mId mRef => leaf mId mRef
  | webmString mId mStr => leaf mId mStr
  | webmSimpleBlock mTrackNum mRelTimecode mKey mRef =>
    leaf kMkvSimpleBlock
      (bigEndian 1 (coded 1 mTrackNum.toNat) ++ (bigEndian 2 mRelTimecode.toNat ++
        ([if mKey then 0x80 else 0] ++ mRef)))
  | ebmlVoid totalSize =>
    .leaf kMkvVoid.toNat (if totalSize < 9 then 1 else 8)
      (List.replicate (if totalSize < 9 then totalSize - 2 else totalSize - 9) 0)
  | webmMaster mId mChildren =>
    .node mId.toNat (codedWidth (Tree.bytesAll (treesOf mChildren)).length) (treesOf mChildren)

def treesOf : List WebmElement → List Tree
  | [] => []
  | e :: es => treeOf e :: treesOf es

end

def payload (e : WebmElement) : List Byte := e.treeOf.payload

def bytes (e : WebmElement) : List Byte := e.treeOf.bytes

/-- The size can be coded. -/
def SizeValid (e : WebmElement) : Prop := e.payload.length ≤ 2 ^ 56 - 2

mutual

/-- The elements that have a coding: the ids are coded numbers, and sizes have at most 56 bits. -/
def Writable : WebmElement → Prop
  | webmUnsigned mId mValue => (∃ k, IsId k mId.toNat) ∧ SizeValid (webmUnsigned mId mValue)
  | webmBinary mId mRef => (∃ k, IsId k mId.toNat) ∧ SizeValid (webmBinary mId mRef)
  | webmString mId mStr => (∃ k, IsId k mId.toNat) ∧ SizeValid (webmString mId mStr)
  | webmSimpleBlock mTrackNum mRelTimecode mKey mRef =>
    1 ≤ mTrackNum.toNat ∧ mTrackNum.toNat ≤ 126 ∧
      SizeValid (webmSimpleBlock mTrackNum mRelTimecode mKey mRef)
  | ebmlVoid totalSize => 2 ≤ totalSize ∧ SizeValid (ebmlVoid totalSize)
  | webmMaster mId mChildren =>
    (∃ k, IsId k mId.toNat) ∧ SizeValid (webmMaster mId mChildren) ∧ mChildren ≠ [] ∧
      WritableAll mChildren

def WritableAll : List WebmElement → Prop
  | [] => True
  | e :: es => Writable e ∧ WritableAll es

end

/-- The size takes at most four bytes, or is coded with a descriptor of 64 bits. -/
def SizeFits : WebmElement → Prop
  | ebmlVoid _ => True
  | e => e.payload.length < 2 ^ 28 - 1

mutual

/-- The sizes of all elements but `EbmlVoid` take at most four bytes. -/
def Small : WebmElement → Prop
  | webmMaster mId mChildren => SizeFits (webmMaster mId mChildren) ∧ SmallAll mChildren
  | e => SizeFits e

def SmallAll : List WebmElement → Prop
  | [] => True
  | e :: es => Small e ∧ SmallAll es

end

/-- The elements inside are small. -/
def SmallInside : WebmElement → Prop
  | webmMaster _ mChildren => SmallAll mChildren
  | _ => True

theorem small_iff (e : WebmElement) : Small e ↔ SizeFits e ∧ SmallInside e := by
  cases e with
  | webmMaster mId mChildren => rw [Small, SmallInside]
  | _ => rw [Small, SmallInside, and_true]; all_goals intros; contradiction

theorem isId_void : IsId 1 kMkvVoid.toNat := by
  refine ⟨by decide, by decide, by decide, by decide⟩

theorem isId_simpleBlock : IsId 1 kMkvSimpleBlock.toNat := by
  refine ⟨by decide, by decide, by decide, by decide⟩

theorem Writable.sizeValid {e : WebmElement} (h : Writable e) : e.payload.length ≤ 2 ^ 56 - 2 := by
  cases e with
  | webmUnsigned => rw [Writable] at h; exact h.2
  | webmBinary => rw [Writable] at h; exact h.2
  | webmString => rw [Writable] at h; exact h.2
  | webmSimpleBlock => rw [Writable] at h; exact h.2.2
  | ebmlVoid => rw [Writable] at h; exact h.2
  | webmMaster => rw [Writable] at h; exact h.2.1

theorem Writable.isId {e : WebmElement} (h : Writable e) : ∃ k, IsId k e.mId.toNat := by
  cases e with
  | webmUnsigned => rw [Writable] at h; exact h.1
  | webmBinary => rw [Writable] at h; exact h.1
  | webmString => rw [Writable] at h; exact h.1
  | webmSimpleBlock => exact ⟨1, isId_simpleBlock⟩
  | ebmlVoid => exact ⟨1, isId_void⟩
  | webmMaster => rw [Writable] at h; exact h.1

/-- The length of the size. -/
def sizeWidth : WebmElement → Nat
  | ebmlVoid totalSize => if totalSize < 9 then 1 else 8
  | e => codedWidth e.payload.length

theorem codedWidth_pos (n : Nat) : 1 ≤ codedWidth n := by
  rw [codedWidth]
  omega

theorem sizeWidth_spec {e : WebmElement} (h : Writable e) :
    (1 ≤ e.sizeWidth ∧ e.sizeWidth ≤ 8) ∧ e.payload.length + 1 < 2 ^ (7 * e.sizeWidth) := by
  have hsize := h.sizeValid
  have hcoded : (1 ≤ codedWidth e.payload.length ∧ codedWidth e.payload.length ≤ 8) ∧
      e.payload.length + 1 < 2 ^ (7 * codedWidth e.payload.length) := by
    refine ⟨⟨codedWidth_pos _, (codedWidth_le_iff _ 8).mpr ?_⟩, (codedWidth_le_iff _ _).mp le_rfl⟩
    omega
  cases e with
  | ebmlVoid totalSize =>
    rw [sizeWidth]
    have hlength : (ebmlVoid totalSize).payload.length =
        if totalSize < 9 then totalSize - 2 else totalSize - 9 := by
      rw [payload, treeOf, Tree.payload, List.length_replicate]
    rw [hlength] at hsize ⊢
    split
    · refine ⟨by omega, ?_⟩
      omega
    · refine ⟨by omega, ?_⟩
      rw [if_neg (by omega)] at hsize
      omega
  | _ => exact hcoded

theorem bytes_eq (e : WebmElement) : e.bytes = element e.mId.toNat e.sizeWidth e.payload := by
  cases e <;> rfl

theorem length_bytes {e : WebmElement} {k : Nat} (hid : IsId k e.mId.toNat) :
    e.bytes.length = k + e.sizeWidth + e.payload.length := by
  rw [bytes_eq, length_element hid]

mutual

theorem valid_treeOf (e : WebmElement) (h : Writable e) : (treeOf e).Valid := by
  have hid := h.isId
  obtain ⟨hwidth, hsize⟩ := sizeWidth_spec h
  cases e with
  | webmMaster mId mChildren =>
    rw [Writable] at h
    obtain ⟨-, -, -, hall⟩ := h
    rw [treeOf, Tree.Valid]
    exact ⟨hid, hwidth, hsize, valid_treesOf mChildren hall⟩
  | _ => exact ⟨hid, hwidth, hsize⟩

theorem valid_treesOf (es : List WebmElement) (h : WritableAll es) :
    Tree.ValidAll (treesOf es) := by
  cases es with
  | nil => rw [treesOf, Tree.ValidAll]; trivial
  | cons e es =>
    rw [WritableAll] at h
    obtain ⟨he, hes⟩ := h
    rw [treesOf, Tree.ValidAll]
    exact ⟨valid_treeOf e he, valid_treesOf es hes⟩

end

/-! ### The size -/

theorem toNat_size {n : Nat} (hn : n ≤ 2 ^ 56 - 2) : (BitVec.ofNat 64 n).toNat = n := by
  rw [BitVec.toNat_ofNat, Nat.mod_eq_of_lt (by omega)]

theorem mSizeWidth_eq {totalSize : Nat} (h : 2 ≤ totalSize) :
    mSizeWidth totalSize = ((ebmlVoid totalSize).sizeWidth : Nat) := by
  have hvoid : sizeOf kMkvVoid = 1 := by decide
  rw [mSizeWidth, hvoid, voidSize, sizeWidth, if_neg (by omega)]
  by_cases hshort : totalSize < 9
  · rw [if_pos (by omega), if_pos hshort]
    omega
  · rw [if_neg (by omega), if_neg hshort]
    omega

theorem payload_master_pos {mId : BitVec 64} {mChildren : List WebmElement}
    (h : Writable (webmMaster mId mChildren)) : (webmMaster mId mChildren).payload.length ≠ 0 := by
  rw [Writable] at h
  obtain ⟨-, -, hne, hall⟩ := h
  cases mChildren with
  | nil => exact absurd rfl hne
  | cons e es =>
    rw [WritableAll] at hall
    have hpos := Tree.length_bytes_pos (valid_treeOf e hall.1)
    rw [payload, treeOf, Tree.payload, treesOf, Tree.bytesAll, List.length_append]
    omega

/-- All elements but `EbmlVoid` have their sizes coded alike. -/
theorem codedSize_of_ne {e : WebmElement} (h : Writable e)
    (hne : ∀ totalSize, e ≠ ebmlVoid totalSize) :
    (SizeFits e ↔ e.payload.length < 2 ^ 28 - 1) ∧ e.sizeWidth = codedWidth e.payload.length ∧
      e.codedSize e.payload.length = encodeUnsigned (BitVec.ofNat 64 e.payload.length) := by
  cases e with
  | ebmlVoid totalSize => exact absurd rfl (hne totalSize)
  | webmMaster mId mChildren => exact ⟨Iff.rfl, rfl, if_neg (payload_master_pos h)⟩
  | _ => exact ⟨Iff.rfl, rfl, rfl⟩

/-- A size is coded in a number of the right length, if it fits. -/
theorem codedSize_eq {e : WebmElement} (h : Writable e) :
    (SizeFits e → ∃ c, e.codedSize e.payload.length = some c ∧
      c.toNat = coded e.sizeWidth e.payload.length) ∧
    (¬SizeFits e → e.codedSize e.payload.length = none) := by
  have hsize := h.sizeValid
  by_cases hvoid : ∃ totalSize, e = ebmlVoid totalSize
  · obtain ⟨totalSize, rfl⟩ := hvoid
    obtain ⟨hwidth, hfits⟩ := sizeWidth_spec h
    rw [Writable] at h
    have hcode := encodeUnsignedWidth_eq (u := BitVec.ofNat 64 (ebmlVoid totalSize).payload.length)
      hwidth.2 (by rw [toNat_size hsize]; omega)
    rw [toNat_size hsize, ← mSizeWidth_eq h.1] at hcode
    exact ⟨fun _ => hcode, fun hnot => absurd trivial hnot⟩
  · obtain ⟨hfits, hwidth, hcode⟩ := codedSize_of_ne h fun totalSize heq => hvoid ⟨totalSize, heq⟩
    have hencode := encodeUnsigned_eq (u := BitVec.ofNat 64 e.payload.length)
      (by rw [toNat_size hsize]; omega)
    rw [toNat_size hsize] at hencode
    rw [hfits, hwidth, hcode]
    exact hencode

theorem serializePayloadSize_eq {e : WebmElement} (h : Writable e) (buf : List Byte) (off : Nat) :
    (SizeFits e → off + e.sizeWidth ≤ buf.length →
      e.serializePayloadSize e.payload.length buf off =
        some (Ring.poke buf off (bigEndian e.sizeWidth (coded e.sizeWidth e.payload.length)),
          (e.sizeWidth : Int))) ∧
    (¬SizeFits e → e.serializePayloadSize e.payload.length buf off = none) := by
  obtain ⟨hsmall, hlarge⟩ := codedSize_eq h
  obtain ⟨hwidth, hsize⟩ := sizeWidth_spec h
  rw [serializePayloadSize]
  constructor
  · intro hfits hroom
    obtain ⟨c, hc, hvalue⟩ := hsmall hfits
    have hid := isId_coded hwidth (by omega : e.payload.length < 2 ^ (7 * e.sizeWidth))
    rw [← hvalue] at hid
    rw [hc, Option.map_some, serializeCodedUnsigned_eq (log2_coded hid) hroom, hvalue]
  · intro hnot
    rw [hlarge hnot, Option.map_none]

/-! ### The payload -/

/-- The payload has the size it is said to have, and it is what is written. -/
def PayloadSpec (e : WebmElement) : Prop :=
  (SmallInside e → e.mSize = some e.payload.length ∧
    ∀ buf off, off + e.payload.length ≤ buf.length →
      e.serializePayload buf off = some (Ring.poke buf off e.payload)) ∧
  (¬SmallInside e → e.mSize = none)

/-- What is stored right behind something else. -/
theorem store_append {a b : List Byte} {k m off : Nat} (buf : List Byte) (ha : a.length = k)
    (hb : b.length = m) (hroom : off + (k + m) ≤ buf.length) :
    Ring.poke (Ring.poke buf off a) (off + k) b = Ring.poke buf off (a ++ b) := by
  subst ha hb
  exact Ring.poke_append hroom

theorem store_set {data : List Byte} {k off : Nat} (buf : List Byte) (b : Byte)
    (hdata : data.length = k) (hroom : off + k < buf.length) :
    (Ring.poke buf off data).set (off + k) b = Ring.poke buf off (data ++ [b]) := by
  have hlength : (Ring.poke buf off data).length = buf.length := Ring.length_poke (by omega)
  rw [Ring.set_eq_poke _ (by omega)]
  exact store_append buf hdata List.length_singleton hroom

/-- An element is written when all its sizes fit. -/
theorem whole {e : WebmElement} (h : Writable e) (hpayload : PayloadSpec e) :
    (Small e → e.totalSize = some e.bytes.length ∧
      ∀ buf off, off + e.bytes.length ≤ buf.length →
        e.serializeInto buf off = some (Ring.poke buf off e.bytes, e.bytes.length)) ∧
    (¬Small e → e.totalSize = none ∧ ∀ buf off, e.serializeInto buf off = none) := by
  obtain ⟨k, hid⟩ := h.isId
  obtain ⟨hwidth, -⟩ := sizeWidth_spec h
  have hlength := length_bytes hid
  obtain ⟨hinside, houtside⟩ := hpayload
  rw [small_iff]
  constructor
  · rintro ⟨hfits, hsmall⟩
    obtain ⟨hmSize, hwritten⟩ := hinside hsmall
    constructor
    · have hsize := (serializePayloadSize_eq h (List.replicate 8 0) 0).1 hfits
        (by rw [List.length_replicate]; omega)
      rw [totalSize, hmSize, Option.bind_some, totalSizeOf, hsize, Option.map_some, sizeOf_eq,
        log2_coded hid, hlength, Int.toNat_natCast, Int.toNat_natCast]
    · intro buf off hroom
      have hhead := serializeCodedUnsigned_eq (log2_coded hid) (by omega : off + k ≤ buf.length)
      have hbuf : (Ring.poke buf off (bigEndian k e.mId.toNat)).length = buf.length := by
        apply Ring.length_poke
        rw [length_bigEndian]
        omega
      have hneck := (serializePayloadSize_eq h (Ring.poke buf off (bigEndian k e.mId.toNat))
        (off + k)).1 hfits (by omega)
      have htwo := store_append buf (length_bigEndian k e.mId.toNat)
        (length_bigEndian e.sizeWidth (coded e.sizeWidth e.payload.length))
        (by omega : off + (k + e.sizeWidth) ≤ buf.length)
      have hroom' : off + k + e.sizeWidth + e.payload.length ≤
          (Ring.poke buf off (bigEndian k e.mId.toNat ++
            bigEndian e.sizeWidth (coded e.sizeWidth e.payload.length))).length := by
        rw [Ring.length_poke (by rw [List.length_append, length_bigEndian, length_bigEndian]; omega)]
        omega
      have hthree := store_append buf
        (by rw [List.length_append, length_bigEndian, length_bigEndian] :
          (bigEndian k e.mId.toNat ++
            bigEndian e.sizeWidth (coded e.sizeWidth e.payload.length)).length = k + e.sizeWidth)
        (rfl : e.payload.length = _)
        (by omega : off + (k + e.sizeWidth + e.payload.length) ≤ buf.length)
      rw [serializeInto, serializeWith, hmSize]
      dsimp only
      rw [hhead]
      dsimp only
      rw [Int.toNat_natCast, hneck]
      dsimp only
      rw [Int.toNat_natCast, htwo, hwritten _ _ hroom', Nat.add_assoc off, hthree, hlength, bytes_eq,
        element, hid.log2, List.append_assoc]
  · intro hnot
    by_cases hsmall : SmallInside e
    · obtain ⟨hmSize, -⟩ := hinside hsmall
      have hlarge : ¬SizeFits e := fun hfits => hnot ⟨hfits, hsmall⟩
      constructor
      · rw [totalSize, hmSize, Option.bind_some, totalSizeOf,
          (serializePayloadSize_eq h _ 0).2 hlarge, Option.map_none]
      · intro buf off
        rw [serializeInto, serializeWith, hmSize]
        dsimp only
        rw [(serializePayloadSize_eq h _ _).2 hlarge]
    · have hmSize := houtside hsmall
      constructor
      · rw [totalSize, hmSize, Option.bind_none]
      · intro buf off
        rw [serializeInto, serializeWith, hmSize]

theorem timecode_bytes (x : BitVec 16) :
    bigEndian 2 x.toNat =
      [((x.signExtend 32 &&& 0xff00) >>> 8).setWidth 8, (x.signExtend 32 &&& 0xff).setWidth 8] := by
  have hhigh : BitVec.ofNat 8 (x.toNat / 256 ^ 1) =
      ((x.signExtend 32 &&& 0xff00) >>> 8).setWidth 8 := by
    have hword : BitVec.ofNat 8 (x.toNat / 256 ^ 1) = (x >>> 8).setWidth 8 := by
      apply BitVec.eq_of_toNat_eq
      rw [BitVec.toNat_ofNat, BitVec.toNat_setWidth, BitVec.toNat_ushiftRight,
        Nat.shiftRight_eq_div_pow, pow_one]
    rw [hword]
    ext i hi
    interval_cases i <;> simp [BitVec.getElem_signExtend]
  have hlow : BitVec.ofNat 8 (x.toNat / 256 ^ 0) = (x.signExtend 32 &&& 0xff).setWidth 8 := by
    have hword : BitVec.ofNat 8 (x.toNat / 256 ^ 0) = x.setWidth 8 := by
      apply BitVec.eq_of_toNat_eq
      rw [BitVec.toNat_ofNat, BitVec.toNat_setWidth, pow_zero, Nat.div_one]
    rw [hword]
    ext i hi
    interval_cases i <;> simp [BitVec.getElem_signExtend]
  rw [bigEndian, bigEndian, bigEndian, hhigh, hlow]

theorem encode_trackNum {mTrackNum : BitVec 32} (h : mTrackNum.toNat ≤ 126) :
    ∃ c, encodeUnsigned (mTrackNum.signExtend 64) = some c ∧ IsId 1 c.toNat ∧
      c.toNat = coded 1 mTrackNum.toNat := by
  have hmsb : mTrackNum.msb = false := by
    rw [BitVec.msb_eq_false_iff_two_mul_lt]
    omega
  have htoNat : (mTrackNum.signExtend 64).toNat = mTrackNum.toNat := by
    rw [BitVec.signExtend_eq_setWidth_of_msb_false hmsb, BitVec.toNat_setWidth,
      Nat.mod_eq_of_lt (by omega)]
  have hone : codedWidth mTrackNum.toNat = 1 := by
    have hle := (codedWidth_le_iff mTrackNum.toNat 1).mpr (by omega)
    have hpos := codedWidth_pos mTrackNum.toNat
    omega
  have hencode := encodeUnsigned_eq (u := mTrackNum.signExtend 64) (by rw [htoNat]; omega)
  rw [htoNat, hone] at hencode
  obtain ⟨c, hc, hvalue⟩ := hencode.1 (by omega)
  refine ⟨c, hc, ?_, hvalue⟩
  rw [hvalue]
  exact isId_coded (by omega) (by omega)

theorem payloadSpec_simpleBlock {mTrackNum : BitVec 32} {mRelTimecode : BitVec 16} {mKey : Bool}
    {mRef : List Byte} (h : Writable (webmSimpleBlock mTrackNum mRelTimecode mKey mRef)) :
    PayloadSpec (webmSimpleBlock mTrackNum mRelTimecode mKey mRef) := by
  rw [Writable] at h
  obtain ⟨-, htrack, -⟩ := h
  obtain ⟨c, hc, hid, hvalue⟩ := encode_trackNum htrack
  have hpayload : (webmSimpleBlock mTrackNum mRelTimecode mKey mRef).payload =
      bigEndian 1 (coded 1 mTrackNum.toNat) ++ (bigEndian 2 mRelTimecode.toNat ++
        ([if mKey then 0x80 else 0] ++ mRef)) := rfl
  have hlength : (webmSimpleBlock mTrackNum mRelTimecode mKey mRef).payload.length =
      mRef.length + 4 := by
    rw [hpayload, List.length_append, List.length_append, List.length_append, length_bigEndian,
      length_bigEndian, List.length_singleton]
    omega
  refine ⟨fun _ => ⟨by rw [mSize, hlength], ?_⟩, fun hnot => absurd trivial hnot⟩
  intro buf off hroom
  rw [hlength] at hroom
  rw [serializePayload, hc, Option.map_some, serializeCodedUnsigned_eq (log2_coded hid) (by omega),
    hvalue, hpayload, timecode_bytes]
  dsimp only
  generalize ((mRelTimecode.signExtend 32 &&& 0xff00) >>> 8).setWidth 8 = high
  generalize (mRelTimecode.signExtend 32 &&& 0xff).setWidth 8 = low
  generalize (if mKey then (0x80 : Byte) else 0) = flags
  generalize htag : bigEndian 1 (coded 1 mTrackNum.toNat) = tag
  have htag : tag.length = 1 := by rw [← htag, length_bigEndian]
  -- the bytes are stored one behind the other
  have hhigh := store_set buf high htag (by omega : off + 1 < buf.length)
  have hlow := store_set buf low (by rw [List.length_append, htag]; rfl : (tag ++ [high]).length = 2)
    (by omega : off + 2 < buf.length)
  have hflags := store_set buf flags
    (by rw [List.length_append, List.length_append, htag]; rfl : (tag ++ [high] ++ [low]).length = 3)
    (by omega : off + 3 < buf.length)
  have hdata := store_append buf
    (by rw [List.length_append, List.length_append, List.length_append, htag]; rfl :
      (tag ++ [high] ++ [low] ++ [flags]).length = 4) (rfl : mRef.length = _)
    (by omega : off + (4 + mRef.length) ≤ buf.length)
  rw [hhigh, hlow, hflags, hdata, List.append_assoc, List.append_assoc, List.append_assoc]
  rfl

theorem childrenSum_cons (e : WebmElement) (es : List WebmElement) :
    childrenSum (e :: es) =
      match e.totalSize with
      | none => none
      | some total => (childrenSum es).map (total + ·) := by
  rw [childrenSum, totalSize]
  cases e.mSize <;> rfl

mutual

theorem payloadSpec (e : WebmElement) (h : Writable e) : PayloadSpec e := by
  cases e with
  | webmUnsigned mId mValue =>
    refine ⟨fun _ => ⟨?_, ?_⟩, fun hnot => absurd trivial hnot⟩
    · rw [mSize, sizeOf_eq, Int.toNat_natCast]
      exact congrArg some (length_bigEndian _ _).symm
    · intro buf off hroom
      have hlength : (webmUnsigned mId mValue).payload.length = Nat.log2 mValue.toNat / 8 + 1 :=
        length_bigEndian _ _
      rw [serializePayload, serializeCodedUnsigned_eq rfl (by omega)]
      rfl
  | webmBinary mId mRef =>
    refine ⟨fun _ => ⟨by rw [mSize]; rfl, ?_⟩, fun hnot => absurd trivial hnot⟩
    intro buf off _
    rw [serializePayload]
    rfl
  | webmString mId mStr =>
    refine ⟨fun _ => ⟨by rw [mSize]; rfl, ?_⟩, fun hnot => absurd trivial hnot⟩
    intro buf off _
    rw [serializePayload]
    rfl
  | webmSimpleBlock mTrackNum mRelTimecode mKey mRef => exact payloadSpec_simpleBlock h
  | ebmlVoid totalSize =>
    have htwo : 2 ≤ totalSize := by
      rw [Writable] at h
      exact h.1
    have hvoid : voidSize totalSize = ((if totalSize < 9 then totalSize - 2 else totalSize - 9 : Nat)
        : Int) := by
      rw [voidSize, if_neg (by omega)]
      split <;> split <;> omega
    refine ⟨fun _ => ⟨?_, ?_⟩, fun hnot => absurd trivial hnot⟩
    · rw [mSize, hvoid, if_pos (by omega), Int.toNat_natCast]
      exact congrArg some List.length_replicate.symm
    · intro buf off _
      rw [serializePayload, hvoid, Int.toNat_natCast]
      rfl
  | webmMaster mId mChildren =>
    have hall : WritableAll mChildren := by
      rw [Writable] at h
      exact h.2.2.2
    obtain ⟨hsmall, hlarge⟩ := childrenSpec mChildren hall
    rw [PayloadSpec, SmallInside, mSize]
    refine ⟨fun hinside => ?_, hlarge⟩
    obtain ⟨hsum, hwritten⟩ := hsmall hinside
    refine ⟨hsum, ?_⟩
    intro buf off hroom
    rw [serializePayload]
    exact hwritten buf off hroom

theorem childrenSpec (es : List WebmElement) (h : WritableAll es) :
    (SmallAll es → childrenSum es = some (Tree.bytesAll (treesOf es)).length ∧
      ∀ buf off, off + (Tree.bytesAll (treesOf es)).length ≤ buf.length →
        serializeChildren es buf off = some (Ring.poke buf off (Tree.bytesAll (treesOf es)))) ∧
    (¬SmallAll es → childrenSum es = none) := by
  cases es with
  | nil =>
    rw [SmallAll, childrenSum, treesOf, Tree.bytesAll]
    refine ⟨fun _ => ⟨rfl, ?_⟩, fun hnot => absurd trivial hnot⟩
    intro buf off _
    rw [serializeChildren, Ring.poke_nil]
  | cons e es =>
    rw [WritableAll] at h
    obtain ⟨he, hes⟩ := h
    obtain ⟨hsmall, hlarge⟩ := whole he (payloadSpec e he)
    obtain ⟨hrest, hnone⟩ := childrenSpec es hes
    rw [SmallAll, childrenSum_cons, treesOf, Tree.bytesAll, List.length_append]
    constructor
    · rintro ⟨hsmallHead, hsmallRest⟩
      obtain ⟨htotal, hinto⟩ := hsmall hsmallHead
      obtain ⟨hsum, hchildren⟩ := hrest hsmallRest
      rw [htotal, hsum]
      refine ⟨rfl, ?_⟩
      intro buf off hroom
      have hbytes : e.bytes.length + (Tree.bytesAll (treesOf es)).length + off ≤ buf.length := by
        rw [bytes]
        omega
      have hbuf : (Ring.poke buf off e.bytes).length = buf.length := Ring.length_poke (by omega)
      have hinto := hinto buf off (by omega)
      rw [serializeInto] at hinto
      rw [serializeChildren, hinto]
      dsimp only
      rw [htotal]
      dsimp only
      rw [hchildren _ _ (by omega), store_append buf rfl rfl (by omega), bytes]
    · intro hnot
      by_cases hsmallHead : Small e
      · have hlargeRest : ¬SmallAll es := fun hsmallRest => hnot ⟨hsmallHead, hsmallRest⟩
        rw [(hsmall hsmallHead).1, hnone hlargeRest]
        rfl
      · rw [(hlarge hsmallHead).1]

end

/-! ### Written and read -/

/-- An element is written to as many bytes as `totalSize` says, from which it is read again. -/
def Serializes (e : WebmElement) : Prop :=
  ∃ bytes : List Byte, e.totalSize = some bytes.length ∧
    (∀ buf off, off + bytes.length ≤ buf.length →
      e.serializeInto buf off = some (Ring.poke buf off bytes, bytes.length)) ∧
    ∃ item, readElement bytes = some (item, []) ∧ e.treeOf.Recovered item

/-- A number is coded in the least number of bytes that have another value with all bits set. -/
def EncodesLeast (u : BitVec 64) : Prop :=
  ∃ c, encodeUnsigned u = some c ∧ c.toNat = coded (sizeOf c).toNat u.toNat ∧
    ∀ k, (sizeOf c).toNat ≤ k ↔ u.toNat + 1 < 2 ^ (7 * k)

theorem serializes_iff {e : WebmElement} (h : Writable e) : Serializes e ↔ Small e := by
  obtain ⟨hsmall, hlarge⟩ := whole h (payloadSpec e h)
  constructor
  · rintro ⟨bytes, htotal, -⟩
    by_contra hnot
    rw [(hlarge hnot).1] at htotal
    cases htotal
  · intro hs
    obtain ⟨htotal, hinto⟩ := hsmall hs
    have hvalid := valid_treeOf e h
    have hread := Tree.readElement_bytes hvalid []
    rw [List.append_nil] at hread
    exact ⟨e.bytes, htotal, hinto, _, hread, Tree.recovered _ hvalid⟩

theorem encodesLeast_iff {u : BitVec 64} (hu : u.toNat ≤ 2 ^ 56 - 2) :
    EncodesLeast u ↔ u.toNat < 2 ^ 28 - 1 := by
  obtain ⟨hsmall, hlarge⟩ := encodeUnsigned_eq (by omega : u.toNat < 2 ^ 56 - 1)
  constructor
  · rintro ⟨c, hc, -⟩
    by_contra hnot
    rw [hlarge hnot] at hc
    cases hc
  · intro hlt
    obtain ⟨c, hc, hvalue⟩ := hsmall hlt
    have hwidth : codedWidth u.toNat ≤ 8 := (codedWidth_le_iff u.toNat 8).mpr (by omega)
    have hfits := (codedWidth_le_iff u.toNat (codedWidth u.toNat)).mp le_rfl
    have hid := isId_coded ⟨codedWidth_pos u.toNat, hwidth⟩
      (by omega : u.toNat < 2 ^ (7 * codedWidth u.toNat))
    rw [← hvalue] at hid
    have hsize : (sizeOf c).toNat = codedWidth u.toNat := by
      rw [sizeOf_eq, log2_coded hid, Int.toNat_natCast]
    rw [EncodesLeast]
    refine ⟨c, hc, ?_, ?_⟩
    · rw [hsize, hvalue]
    · intro k
      rw [hsize, codedWidth_le_iff]

theorem totalSize_void {n : Nat} (h : Writable (ebmlVoid n)) : (ebmlVoid n).totalSize = some n := by
  obtain ⟨hsmall, -⟩ := whole h (payloadSpec _ h)
  have hsmall : Small (ebmlVoid n) := (small_iff _).mpr ⟨trivial, trivial⟩
  have htotal := ((whole h (payloadSpec _ h)).1 hsmall).1
  have hpayload : (ebmlVoid n).payload.length = if n < 9 then n - 2 else n - 9 :=
    List.length_replicate
  rw [Writable] at h
  rw [htotal, length_bytes isId_void, hpayload, sizeWidth]
  congr 1
  split <;> omega

/-- Elements are written and read again exactly when no size but that of an `EbmlVoid` takes more
than four bytes. -/
theorem serializes_iff_small (e : WebmElement) (u : BitVec 64) (n : Nat) :
    (Writable e → (Serializes e ↔ Small e)) ∧
    (u.toNat ≤ 2 ^ 56 - 2 → (EncodesLeast u ↔ u.toNat < 2 ^ 28 - 1)) ∧
    (Writable (ebmlVoid n) → (ebmlVoid n).totalSize = some n) :=
  ⟨serializes_iff, encodesLeast_iff, totalSize_void⟩

/-- A cue with a track, padded. -/
def cue : WebmElement :=
  .webmMaster 0xB7 [.webmUnsigned 0xF7 300, .webmString 0x86 [0x41, 0x5F], .ebmlVoid 4]

theorem serializes_cue :
    Writable cue ∧ Small cue ∧ Serializes cue ∧ EncodesLeast 127 ∧
      (ebmlVoid 10).totalSize = some 10 := by
  have hwritable : Writable cue := by
    simp only [cue, Writable, WritableAll, SizeValid, payload, treeOf, treesOf, leaf, Tree.payload]
    refine ⟨⟨1, ?_⟩, ?_, List.cons_ne_nil _ _, ⟨⟨1, ?_⟩, ?_⟩, ⟨⟨1, ?_⟩, ?_⟩, ⟨?_, ?_⟩, trivial⟩
    all_goals decide
  have hsmall : Small cue := by
    simp only [cue, Small, SmallAll, SizeFits, payload, treeOf, treesOf, leaf, Tree.payload]
    refine ⟨?_, ?_, ?_, trivial, trivial⟩
    all_goals decide
  have hvoid : Writable (ebmlVoid 10) := by
    simp only [Writable, SizeValid, payload, treeOf, Tree.payload]
    refine ⟨?_, ?_⟩
    all_goals decide
  obtain ⟨hserializes, hencodes, htotal⟩ := serializes_iff_small cue 127 10
  exact ⟨hwritable, hsmall, (hserializes hwritable).mpr hsmall,
    (hencodes (by decide)).mpr (by decide), htotal hvoid⟩

/-- The size of a payload of `2 ^ 28 - 1` bytes takes a shift of an `int` by more than its width. -/
theorem five_byte_size_not_serialized :
    ¬(∀ e, Writable e → Serializes e) ∧ encodeUnsigned (BitVec.ofNat 64 (2 ^ 28 - 1)) = none := by
  refine ⟨?_, by decide⟩
  intro hall
  obtain ⟨payload, hpayload⟩ : ∃ payload : List Byte, payload.length = 2 ^ 28 - 1 :=
    ⟨List.replicate (2 ^ 28 - 1) 0, List.length_replicate⟩
  have hlength : (webmBinary 0x63A2 payload).payload.length = 2 ^ 28 - 1 := hpayload
  have hwritable : Writable (webmBinary 0x63A2 payload) := by
    rw [Writable, SizeValid, hlength]
    refine ⟨⟨2, ?_⟩, ?_⟩
    all_goals decide
  have hsmall := (serializes_iff hwritable).mp (hall _ hwritable)
  rw [small_iff] at hsmall
  have hfits : (webmBinary 0x63A2 payload).payload.length < 2 ^ 28 - 1 := hsmall.1
  rw [hlength] at hfits
  exact Nat.lt_irrefl _ hfits

end MediaFramework.Webm.WebmElement
