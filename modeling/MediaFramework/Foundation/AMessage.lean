import Mathlib.Data.BitVec
import MediaFramework.Lib.Assoc
import MediaFramework.Lib.Text

/-!
# Messages

`AMessage` (`media/libstagefright/foundation/AMessage.cpp`): items with distinct names, each with a
value of one of eleven types. A message that an item refers to is part of its value. Floats and
doubles are their bit patterns. A `CHECK` that fails aborts.
-/

namespace MediaFramework.Foundation

/-- `size` bytes from `data`, which may be null. -/
structure ABuffer where
  data : Option (List (BitVec 8))
  size : Nat
  length_data : ∀ bytes ∈ data, bytes.length = size
  deriving DecidableEq

/-- The types of items, in the order of their numbers. -/
inductive ItemType where
  | kTypeInt32
  | kTypeInt64
  | kTypeSize
  | kTypeFloat
  | kTypeDouble
  | kTypePointer
  | kTypeString
  | kTypeObject
  | kTypeMessage
  | kTypeRect
  | kTypeBuffer
  deriving DecidableEq

mutual

inductive AMessage where
  | mk (mWhat : BitVec 32) (mItems : List (CString × Value))

/-- The union `u` of an item with the item's type. A float leaves the upper half of `sizeValue` as
it is, here `upper`. -/
inductive Value where
  | int32Value (v : BitVec 32)
  | int64Value (v : BitVec 64)
  | sizeValue (v : BitVec 64)
  | floatValue (v upper : BitVec 32)
  | doubleValue (v : BitVec 64)
  | ptrValue (v : BitVec 64)
  | stringValue (v : List (BitVec 8))
  | objectValue (refValue : Option Nat)
  | messageValue (refValue : Option AMessage)
  | rectValue (mLeft mTop mRight mBottom : BitVec 32)
  | bufferValue (refValue : Option ABuffer)

end

abbrev Item := CString × Value

namespace Value

def mType : Value → ItemType
  | int32Value _ => .kTypeInt32
  | int64Value _ => .kTypeInt64
  | sizeValue _ => .kTypeSize
  | floatValue _ _ => .kTypeFloat
  | doubleValue _ => .kTypeDouble
  | ptrValue _ => .kTypePointer
  | stringValue _ => .kTypeString
  | objectValue _ => .kTypeObject
  | messageValue _ => .kTypeMessage
  | rectValue _ _ _ _ => .kTypeRect
  | bufferValue _ => .kTypeBuffer

/-- The message that a message item refers to. -/
def message : Value → Option AMessage
  | messageValue refValue => refValue
  | _ => none

end Value

namespace AMessage

def kMaxNumItems : Nat := 64

def mWhat : AMessage → BitVec 32
  | mk mWhat _ => mWhat

def mItems : AMessage → List Item
  | mk _ mItems => mItems

@[simp] theorem mWhat_mk (mWhat : BitVec 32) (mItems : List Item) :
    (mk mWhat mItems).mWhat = mWhat := rfl

@[simp] theorem mItems_mk (mWhat : BitVec 32) (mItems : List Item) :
    (mk mWhat mItems).mItems = mItems := rfl

def countEntries (m : AMessage) : Nat := m.mItems.length

def findItemIndex (mItems : List Item) (name : CString) : Nat :=
  mItems.findIdx fun item => item.1 = name

/-- `allocateItem`, and the value that goes into the item. -/
def setItem (mItems : List Item) (name : CString) (value : Value) : Option (List Item) :=
  let i := findItemIndex mItems name
  if i < mItems.length then some (mItems.set i (name, value))
  else if mItems.length < kMaxNumItems then some (mItems ++ [(name, value)])
  else none

def findItem (m : AMessage) (name : CString) (type : ItemType) : Option Value :=
  match m.mItems[findItemIndex m.mItems name]? with
  | some item => if item.2.mType = type then some item.2 else none
  | none => none

section Items

variable {mItems : List Item} {name : CString} {value : Value}

theorem setItem_eq : setItem mItems name value =
    Assoc.putWithin kMaxNumItems name value mItems := by
  change (if Assoc.index name mItems < _ then some (mItems.set (Assoc.index name mItems) _) else _) = _
  rw [Assoc.putWithin]
  by_cases h : name ∈ Assoc.keys mItems
  · rw [if_pos (Assoc.index_lt.mpr h), if_pos (.inl h), Assoc.set_index h]
  · rw [if_neg (mt Assoc.index_lt.mp h), Assoc.put_of_notMem h]
    simp only [h, false_or]

theorem findItem_eq {m : AMessage} {type : ItemType} :
    m.findItem name type = (m.mItems.lookup name).filter fun v => v.mType = type := by
  rw [findItem, ← Assoc.getElem?_index, findItemIndex, Assoc.index]
  cases m.mItems[m.mItems.findIdx fun item => item.1 = name]? with
  | none => rfl
  | some item =>
    rw [Option.map_some, Option.filter_some]
    simp only [decide_eq_true_eq]

end Items

/-! ### Extending -/

def extendItems : List Item → List Item → Option (List Item)
  | mItems, [] => some mItems
  | mItems, item :: items => do
    let mItems ← setItem mItems item.1 item.2
    extendItems mItems items

theorem extendItems_eq {mItems items : List Item} : extendItems mItems items =
    Assoc.updateAll (fun value _ => some value) kMaxNumItems mItems items := by
  induction items generalizing mItems with
  | nil => rfl
  | cons item items ih =>
    rw [extendItems, Assoc.updateAll, Option.bind_some, setItem_eq]
    exact congrArg _ (funext fun _ => ih)

/-- A null message is ignored. -/
def extend (m : AMessage) : Option AMessage → Option AMessage
  | none => some m
  | some other => (extendItems m.mItems other.mItems).map (mk m.mWhat)

/-! ### Numbers -/

/-- The exponent and the fraction, of `fraction` bits, of the floating-point number nearest to `n`;
of two that are as near, the even one. -/
def nearestBinary (fraction bias n : Nat) : Nat :=
  if n = 0 then 0
  else
    let exponent := n.log2
    let unit := 2 ^ (exponent - fraction)
    let quotient := n * 2 ^ (fraction - exponent) / unit
    let remainder := n % unit
    let roundsUp := unit < 2 * remainder ∨ unit = 2 * remainder ∧ quotient % 2 = 1
    (bias + exponent - 1) * 2 ^ fraction + if roundsUp then quotient + 1 else quotient

/-- The conversion of a `size_t` to a `float`. -/
def floatOfSize (v : BitVec 64) : BitVec 32 := .ofNat 32 (nearestBinary 23 127 v.toNat)

/-- The conversion of a `size_t` to a `double`. -/
def doubleOfSize (v : BitVec 64) : BitVec 64 := .ofNat 64 (nearestBinary 52 1023 v.toNat)

/-- The bits of a floating-point number without that of the sign. -/
def magnitude {n : Nat} (v : BitVec n) : Nat := v.toNat % 2 ^ (n - 1)

/-- The magnitude is above that of an infinity. -/
def isNaN {n : Nat} (infinity : Nat) (v : BitVec n) : Bool := infinity < magnitude v

/-- `==`: a NaN is not equal to itself, and the two zeros are equal. -/
def numberEq {n : Nat} (infinity : Nat) (v w : BitVec n) : Bool :=
  !isNaN infinity v && !isNaN infinity w && (v = w || magnitude v = 0 && magnitude w = 0)

def floatInfinity : Nat := 0x7f800000

def doubleInfinity : Nat := 0x7ff0000000000000

theorem numberEq_self {n : Nat} {infinity : Nat} {v : BitVec n} :
    numberEq infinity v v = !isNaN infinity v := by
  simp [numberEq]

end AMessage

/-! ### Differences -/

def ABuffer.differs (myBuf oBuf : ABuffer) : Bool :=
  myBuf.size ≠ oBuf.size || (myBuf.data.isNone ^^ oBuf.data.isNone) ||
    (myBuf.data.isSome && myBuf.data ≠ oBuf.data)

namespace Value

/-- Whether an item of the other message has the type and the value. -/
def same : Value → Value → Bool
  | int32Value v, int32Value w => v = w
  | int64Value v, int64Value w => v = w
  | sizeValue v, sizeValue w => v = w
  | floatValue v _, floatValue w _ => AMessage.numberEq AMessage.floatInfinity v w
  | doubleValue v, doubleValue w => AMessage.numberEq AMessage.doubleInfinity v w
  | ptrValue v, ptrValue w => v = w
  | stringValue v, stringValue w => v = w
  | objectValue v, objectValue w => v = w
  | messageValue none, messageValue none => true
  | rectValue l t r b, rectValue l' t' r' b' => l = l' && t = t' && r = r' && b = b'
  | bufferValue none, bufferValue none => true
  | bufferValue (some myBuf), bufferValue (some oBuf) => !myBuf.differs oBuf
  | _, _ => false

/-- What the difference gets. Floats and doubles are set to `sizeValue`. -/
def copied : Value → Value
  | floatValue v upper => floatValue (AMessage.floatOfSize (upper ++ v)) upper
  | doubleValue v => doubleValue (AMessage.doubleOfSize v)
  | v => v

end Value

namespace AMessage

mutual

/-- The items of a message, with the items that the difference has. -/
def changes (other : AMessage) (deep : Bool) : List Item → List Item → Option (List Item)
  | [], diff => some diff
  | (mName, value) :: items, diff => do
    match ← change deep value (other.findItem mName value.mType) with
    | some v =>
      let diff ← setItem diff mName v
      changes other deep items diff
    | none => changes other deep items diff

/-- What the difference gets for an item, if anything, where `oitem` is the other message's. -/
def change (deep : Bool) : Value → Option Value → Option (Option Value)
  | .messageValue (some myMsg), oitem => do
    let diff ← myMsg.changesFrom (oitem.bind Value.message) deep
    return if diff.countEntries ≠ 0 then
      some (.messageValue (some (if deep then diff else myMsg)))
    else none
  | value, oitem => some (if oitem.any value.same then none else some value.copied)

/-- A message that has no other is returned itself. -/
def changesFrom : AMessage → Option AMessage → Bool → Option AMessage
  | m, none, _ => some m
  | mk what items, some other, deep => do
    let diff ← changes other deep items []
    return mk (if what ≠ other.mWhat then what else 0) diff

end

end AMessage

end MediaFramework.Foundation
