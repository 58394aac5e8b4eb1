import MediaFramework.Foundation.AMessage
import MediaFramework.Lib.CounterMode

/-!
# Parcels

How values are laid out in a parcel, as a parameter of what is written to and read from it, the
layout of `Parcel` itself, and messages in parcels.
-/

namespace MediaFramework.Foundation

/-- The writing of values at the end of a parcel and the reading at its position. -/
structure ParcelFormat where
  writeInt32 : BitVec 32 → List (BitVec 8)
  writeInt64 : BitVec 64 → List (BitVec 8)
  writeFloat : BitVec 32 → List (BitVec 8)
  writeDouble : BitVec 64 → List (BitVec 8)
  writeCString : CString → List (BitVec 8)
  readInt32 : List (BitVec 8) → BitVec 32 × List (BitVec 8)
  readInt64 : List (BitVec 8) → BitVec 64 × List (BitVec 8)
  readFloat : List (BitVec 8) → BitVec 32 × List (BitVec 8)
  readDouble : List (BitVec 8) → BitVec 64 × List (BitVec 8)
  readCString : List (BitVec 8) → Option CString × List (BitVec 8)

/-- What has been written is read, and the position moves behind it. -/
structure ParcelFormat.ReadsWritten (F : ParcelFormat) : Prop where
  int32 : ∀ v rest, F.readInt32 (F.writeInt32 v ++ rest) = (v, rest)
  int64 : ∀ v rest, F.readInt64 (F.writeInt64 v ++ rest) = (v, rest)
  float : ∀ v rest, F.readFloat (F.writeFloat v ++ rest) = (v, rest)
  double : ∀ v rest, F.readDouble (F.writeDouble v ++ rest) = (v, rest)
  cString : ∀ v rest, F.readCString (F.writeCString v ++ rest) = (some v, rest)

/-! ### The layout of `Parcel` -/

namespace ParcelFormat

open LittleEndian

/-- Sizes are rounded up to four. -/
def padSize (n : Nat) : Nat := (n + 3) / 4 * 4

/-- The lowest byte first; where there is too little data, a zero and the same position. -/
def readNumber (n : Nat) (data : List (BitVec 8)) : BitVec (8 * n) × List (BitVec 8) :=
  if data.length < n then (0, data) else (.ofNat _ (value (data.take n)), data.drop n)

/-- A string up to the first NUL, if there is one. -/
def readPadded (data : List (BitVec 8)) : Option CString × List (BitVec 8) :=
  if 0 ∈ data then
    (some (.ofBytes data), data.drop (padSize ((CString.ofBytes data).bytes.length + 1)))
  else (none, data)

def writePadded (s : CString) : List (BitVec 8) :=
  s.bytes ++ List.replicate (padSize (s.bytes.length + 1) - s.bytes.length) 0

def padded : ParcelFormat where
  writeInt32 v := digits 4 v.toNat
  writeInt64 v := digits 8 v.toNat
  writeFloat v := digits 4 v.toNat
  writeDouble v := digits 8 v.toNat
  writeCString := writePadded
  readInt32 := readNumber 4
  readInt64 := readNumber 8
  readFloat := readNumber 4
  readDouble := readNumber 8
  readCString := readPadded

theorem readNumber_digits (n : Nat) (v : BitVec (8 * n)) (rest : List (BitVec 8)) :
    readNumber n (digits n v.toNat ++ rest) = (v, rest) := by
  have hlength := length_digits n v.toNat
  have hpow : (256 : Nat) ^ n = 2 ^ (8 * n) := (Nat.pow_mul 2 8 n).symm
  rw [readNumber, if_neg (by rw [List.length_append]; omega), List.take_left' hlength,
    List.drop_left' hlength, value_digits, hpow, Nat.mod_eq_of_lt v.isLt, BitVec.ofNat_toNat,
    BitVec.setWidth_eq]

theorem readPadded_writePadded (s : CString) (rest : List (BitVec 8)) :
    readPadded (writePadded s ++ rest) = (some s, rest) := by
  have hpad : s.bytes.length < padSize (s.bytes.length + 1) := by
    rw [padSize]
    omega
  obtain ⟨n, hn⟩ := Nat.exists_eq_add_of_lt hpad
  have hdata : writePadded s ++ rest = s.bytes ++ (0 :: (List.replicate n 0 ++ rest)) := by
    rw [writePadded, hn, List.append_assoc]
    congr 1
    rw [show s.bytes.length + n + 1 - s.bytes.length = n + 1 by omega, List.replicate_succ,
      List.cons_append]
  have hbytes : (CString.ofBytes (writePadded s ++ rest)) = s := by
    obtain ⟨bytes, noNul⟩ := s
    rw [CString.ofBytes, CString.mk.injEq, hdata, List.takeWhile_append_of_pos]
    · simp
    · intro b hb
      rw [decide_eq_true_eq]
      rintro rfl
      exact noNul hb
  have hlength : (writePadded s).length = padSize (s.bytes.length + 1) := by
    rw [writePadded, List.length_append, List.length_replicate]
    omega
  rw [readPadded, if_pos, hbytes, List.drop_left' hlength]
  rw [hdata]
  simp

theorem padded_readsWritten : padded.ReadsWritten where
  int32 := readNumber_digits 4
  int64 := readNumber_digits 8
  float := readNumber_digits 4
  double := readNumber_digits 8
  cString := readPadded_writePadded

end ParcelFormat

end MediaFramework.Foundation

/-!
## Messages in parcels

`AMessage::writeToParcel` and `AMessage::FromParcel`. A parcel is the data from its position on;
how values are laid out in it is a parameter. What the reading of a message allocates goes by
numbers in the order of the allocations.
-/

namespace MediaFramework.Foundation

namespace ItemType

def number : ItemType → BitVec 32
  | kTypeInt32 => 0
  | kTypeInt64 => 1
  | kTypeSize => 2
  | kTypeFloat => 3
  | kTypeDouble => 4
  | kTypePointer => 5
  | kTypeString => 6
  | kTypeObject => 7
  | kTypeMessage => 8
  | kTypeRect => 9
  | kTypeBuffer => 10

/-- The type of a number; `static_cast<Type>` also makes values that are no type. -/
def ofNumber (n : BitVec 32) : Option ItemType :=
  [kTypeInt32, kTypeInt64, kTypeSize, kTypeFloat, kTypeDouble, kTypePointer, kTypeString,
    kTypeObject, kTypeMessage, kTypeRect, kTypeBuffer].find? fun type => type.number = n

@[simp] theorem ofNumber_number (type : ItemType) : ofNumber type.number = some type := by
  cases type <;> rfl

theorem number_of_ofNumber {n : BitVec 32} {type : ItemType} (h : ofNumber n = some type) :
    type.number = n := by
  simpa using List.find?_some h

end ItemType

variable (F : ParcelFormat)

/-! ### Writing -/

namespace AMessage

mutual

/-- `none` where the writing aborts: at a type that cannot cross process boundaries, or at a null
message. -/
def writeToParcel : AMessage → Option (List (BitVec 8))
  | mk mWhat mItems => do
    let items ← writeItems mItems
    return F.writeInt32 mWhat ++ (F.writeInt32 (.ofNat 32 mItems.length) ++ items)

def writeItems : List Item → Option (List (BitVec 8))
  | [] => some []
  | (mName, value) :: items => do
    let v ← writeValue value
    let rest ← writeItems items
    return F.writeCString mName ++ (F.writeInt32 value.mType.number ++ (v ++ rest))

def writeValue : Value → Option (List (BitVec 8))
  | .int32Value v => some (F.writeInt32 v)
  | .int64Value v => some (F.writeInt64 v)
  | .sizeValue v => some (F.writeInt32 (v.setWidth 32))
  | .floatValue v _ => some (F.writeFloat v)
  | .doubleValue v => some (F.writeDouble v)
  | .stringValue v => some (F.writeCString (.ofBytes v))
  | .messageValue (some m) => m.writeToParcel
  | _ => none

end

/-! ### Reading -/

/-- What `u` holds: a value, a string that has been allocated, or a message. -/
inductive Contents where
  | plain (v : Value)
  | string (ref : Nat) (v : CString)
  | message (ref : Nat) (m : AMessage)

def Contents.value : Contents → Value
  | plain v => v
  | string _ v => .stringValue v.bytes
  | message _ m => .messageValue (some m)

/-- An item of a message that is being read; what has not been set is `none`. -/
structure Slot where
  mName : Option (Nat × CString) := none
  mType : BitVec 32
  u : Option Contents := none

def Slot.item (slot : Slot) : Option Item := do
  let name ← slot.mName
  let u ← slot.u
  return (name.2, u.value)

/-- A message that is being read. Behind `mItems` the items are as the memory was. -/
structure RawMessage where
  ref : Nat
  mWhat : BitVec 32
  mItems : List Slot
  mNumItems : Nat

def RawMessage.message (msg : RawMessage) : AMessage :=
  AMessage.mk msg.mWhat ((msg.mItems.take msg.mNumItems).filterMap Slot.item)

/-- The parcel, the number of allocations, and the messages that have been read. -/
structure Reading where
  parcel : List (BitVec 8)
  allocated : Nat := 0
  created : List RawMessage := []

/-- The reading of a value: a null string ends the message, other failures the whole reading. -/
inductive ValueRead where
  | value (u : Contents)
  | noString
  | null

def readPlain {α : Type} (read : List (BitVec 8) → α × List (BitVec 8)) (value : α → Value)
    (s : Reading) : ValueRead × Reading :=
  (.value (.plain (value (read s.parcel).1)), { s with parcel := (read s.parcel).2 })

def readString (s : Reading) : ValueRead × Reading :=
  match F.readCString s.parcel with
  | (none, parcel) => (.noString, { s with parcel })
  | (some stringValue, parcel) =>
    (.value (.string s.allocated stringValue), { s with parcel, allocated := s.allocated + 1 })

/-- No message of the next level, or none that can be read, is a failure. -/
def readSubMessage : Option (Reading → Option RawMessage × Reading) → Reading → ValueRead × Reading
  | none, s => (.null, s)
  | some subMessage, s =>
    match subMessage s with
    | (none, s) => (.null, s)
    | (some subMsg, s) => (.value (.message subMsg.ref subMsg.message), s)

/-- The cases of the types. `subMessage` reads a message of the next level, if there is one. -/
def readValue (subMessage : Option (Reading → Option RawMessage × Reading)) (mType : BitVec 32)
    (s : Reading) : ValueRead × Reading :=
  match ItemType.ofNumber mType with
  | some .kTypeInt32 => readPlain F.readInt32 .int32Value s
  | some .kTypeInt64 => readPlain F.readInt64 .int64Value s
  | some .kTypeSize => readPlain F.readInt32 (fun v => .sizeValue (v.signExtend 64)) s
  | some .kTypeFloat => readPlain F.readFloat (fun v => .floatValue v 0) s
  | some .kTypeDouble => readPlain F.readDouble .doubleValue s
  | some .kTypeString => readString F s
  | some .kTypeMessage => readSubMessage subMessage s
  | _ => (.null, s)

/-- The loop, for as many items as are left; `false` where it returns `NULL`. -/
def readItems (subMessage : Option (Reading → Option RawMessage × Reading)) :
    Nat → RawMessage → Reading → Bool × RawMessage × Reading
  | 0, msg, s => (true, msg, s)
  | n + 1, msg, s =>
    match F.readCString s.parcel with
    | (none, parcel) =>
      (true, { msg with mNumItems := msg.mItems.length }, { s with parcel })
    | (some name, parcel) =>
      let (mType, parcel) := F.readInt32 parcel
      match readValue F subMessage mType { s with parcel } with
      | (.noString, s) =>
        (true, { msg with mItems := msg.mItems ++ [{ mType }], mNumItems := msg.mItems.length }, s)
      | (.null, s) => (false, { msg with mItems := msg.mItems ++ [{ mType }] }, s)
      | (.value u, s) =>
        readItems subMessage n
          { msg with mItems := msg.mItems ++ [⟨some (s.allocated, name), mType, some u⟩] }
          { s with allocated := s.allocated + 1 }

/-- `static_cast<size_t>` of the number of items, clipped. -/
def itemCount (n : BitVec 32) : Nat := min (n.signExtend 64).toNat kMaxNumItems

def readMessage (subMessage : Option (Reading → Option RawMessage × Reading)) (s : Reading) :
    Option RawMessage × Reading :=
  let (what, parcel) := F.readInt32 s.parcel
  let (count, parcel) := F.readInt32 parcel
  let (ok, msg, s') := readItems F subMessage (itemCount count)
    ⟨s.allocated, what, [], itemCount count⟩ { s with parcel, allocated := s.allocated + 1 }
  (if ok then some msg else none, { s' with created := s'.created ++ [msg] })

/-- `FromParcel`, with `maxNestingLevel`. -/
def fromParcel : Nat → Reading → Option RawMessage × Reading
  | 0 => readMessage F none
  | maxNestingLevel + 1 => readMessage F (some (fromParcel maxNestingLevel))

end AMessage

end MediaFramework.Foundation
