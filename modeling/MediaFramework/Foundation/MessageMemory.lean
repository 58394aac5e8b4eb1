import MediaFramework.Foundation.AMessage

/-!
# Messages in memory

`AMessage` (`media/libstagefright/foundation/AMessage.cpp`) where messages may be shared: the messages,
objects and buffers that items refer to are addresses. A `CHECK` that fails aborts, and so does a null
pointer that is dereferenced.
-/

namespace MediaFramework.Foundation.MessageMemory

/-- The union `u` of an item with the item's type. -/
inductive Cell where
  | int32Value (v : BitVec 32)
  | int64Value (v : BitVec 64)
  | sizeValue (v : BitVec 64)
  | floatValue (v : BitVec 32)
  | doubleValue (v : BitVec 64)
  | ptrValue (v : BitVec 64)
  | stringValue (v : List (BitVec 8))
  | objectValue (refValue : Option Nat)
  | messageValue (refValue : Option Nat)
  | rectValue (mLeft mTop mRight mBottom : BitVec 32)
  | bufferValue (refValue : Option Nat)
  deriving DecidableEq

def Cell.mType : Cell → ItemType
  | int32Value _ => .kTypeInt32
  | int64Value _ => .kTypeInt64
  | sizeValue _ => .kTypeSize
  | floatValue _ => .kTypeFloat
  | doubleValue _ => .kTypeDouble
  | ptrValue _ => .kTypePointer
  | stringValue _ => .kTypeString
  | objectValue _ => .kTypeObject
  | messageValue _ => .kTypeMessage
  | rectValue _ _ _ _ => .kTypeRect
  | bufferValue _ => .kTypeBuffer

abbrev Item := CString × Cell

inductive Status where
  | OK
  | BAD_INDEX
  | BAD_VALUE
  | ALREADY_EXISTS
  deriving DecidableEq

/-! ### The items of a message -/

def findItemIndex (mItems : List Item) (name : CString) : Nat :=
  mItems.findIdx fun item => item.1 = name

def contains (mItems : List Item) (name : CString) : Bool :=
  findItemIndex mItems name < mItems.length

/-- `findInt32` and so on, by the type. -/
def findItem (mItems : List Item) (name : CString) (type : ItemType) : Option Cell :=
  match mItems[findItemIndex mItems name]? with
  | some item => if item.2.mType = type then some item.2 else none
  | none => none

def getEntryNameAt (mItems : List Item) (index : Nat) : Option (CString × ItemType) :=
  mItems[index]?.map fun item => (item.1, item.2.mType)

def getEntryAt (mItems : List Item) (index : Nat) : Option Cell := mItems[index]?.map Prod.snd

def findEntryByName (mItems : List Item) : Option CString → Nat
  | none => mItems.length
  | some name => findItemIndex mItems name

/-- `findItem` for any type. -/
def findAny (mItems : List Item) (name : Option CString) : Option Cell :=
  getEntryAt mItems (findEntryByName mItems name)

section

/- The first four bytes of the union of an item. -/
variable (low : Cell → BitVec 32)

/-- Only the type is cleared. -/
def freeItemValue : Cell → Cell
  | .int32Value v => .int32Value v
  | v => .int32Value (low v)

/-- The items and the index of the one with the name. What is in the union of a new item is not read
before it is set. -/
def allocateItem (mItems : List Item) (name : CString) : Option (List Item × Nat) :=
  let i := findItemIndex mItems name
  match mItems[i]? with
  | some item => some (mItems.set i (item.1, freeItemValue low item.2), i)
  | none =>
    if mItems.length < AMessage.kMaxNumItems then
      some (mItems ++ [(name, .int32Value 0)], mItems.length)
    else none

/-- `setInt32` and so on. -/
def set (mItems : List Item) (name : CString) (value : Cell) : Option (List Item) :=
  (allocateItem low mItems name).map fun r => r.1.modify r.2 fun item => (item.1, value)

/-- The value may be missing. -/
def setEntryAt (mItems : List Item) (index : Nat) (item : Option Cell) : List Item × Status :=
  match mItems[index]? with
  | none => (mItems, .BAD_INDEX)
  | some dst =>
    match item with
    | none => (mItems, .BAD_VALUE)
    | some value => (mItems.set index (dst.1, value), .OK)

def setItem (mItems : List Item) (name : CString) (item : Option Cell) : Option (List Item) :=
  match item with
  | none => some mItems
  | some value =>
    (allocateItem low mItems name).map fun r => (setEntryAt r.1 r.2 (some value)).1

/-- The name may be null. -/
def setEntryNameAt (mItems : List Item) (index : Nat) (name : Option CString) :
    List Item × Status :=
  match mItems[index]? with
  | none => (mItems, .BAD_INDEX)
  | some item =>
    match name with
    | none => (mItems, .BAD_VALUE)
    | some name =>
      if name = item.1 then (mItems, .OK)
      else if findItemIndex mItems name < mItems.length then (mItems, .ALREADY_EXISTS)
      else (mItems.set index (name, item.2), .OK)

/-- The last item takes the place of the one that is removed. -/
def removeEntryAt (mItems : List Item) (index : Nat) : List Item × Status :=
  if index ≥ mItems.length then (mItems, .BAD_INDEX) else (Assoc.removeAt index mItems, .OK)

/-- The loop of `extend` from an index on, for so many items. `theirs` is `none` where a message is
extended by itself. -/
def extendItems (theirs : Option (List Item)) : Nat → Nat → List Item → Option (List Item)
  | 0, _, mItems => some mItems
  | n + 1, ix, mItems => do
    let item ← (theirs.getD mItems)[ix]?
    let (mItems, i) ← allocateItem low mItems item.1
    let data := getEntryAt (theirs.getD mItems) ix
    extendItems theirs n (ix + 1) (setEntryAt mItems i data).1

def replyID : CString := CString.ofBytes [114, 101, 112, 108, 121, 73, 68]

/-- The items, and the token where a sender waits for a response. -/
def senderAwaitsResponse (mItems : List Item) : Option (List Item × Option Nat) :=
  match findItem mItems replyID .kTypeObject with
  | some (.objectValue token) =>
    (set low mItems replyID (.objectValue none)).map fun mItems => (mItems, token)
  | _ => some (mItems, none)

end

/-! ### Messages -/

structure Message where
  mWhat : BitVec 32 := 0
  mItems : List Item := []
  deriving DecidableEq

/-- The messages by their addresses. -/
abbrev Memory := List Message

/-- The calls that change the items of a message. -/
inductive Change where
  | set (name : CString) (value : Cell)
  | setItem (name : CString) (item : Option Cell)
  | setEntryAt (index : Nat) (item : Option Cell)
  | setEntryNameAt (index : Nat) (name : Option CString)
  | removeEntryAt (index : Nat)
  | extend (other : Option Nat)
  | clear
  | senderAwaitsResponse

inductive Call where
  | new (what : BitVec 32)
  | setWhat (a : Nat) (what : BitVec 32)
  | change (a : Nat) (c : Change)

namespace Memory

variable (low : Cell → BitVec 32) (mem : Memory)

/-- What a call does to the items of the message at `a`. -/
def apply (a : Nat) (c : Change) (mItems : List Item) : Option (List Item) :=
  match c with
  | .set name value => MessageMemory.set low mItems name value
  | .setItem name item => MessageMemory.setItem low mItems name item
  | .setEntryAt index item => some (MessageMemory.setEntryAt mItems index item).1
  | .setEntryNameAt index name => some (MessageMemory.setEntryNameAt mItems index name).1
  | .removeEntryAt index => some (MessageMemory.removeEntryAt mItems index).1
  | .extend none => some mItems
  | .extend (some b) =>
    mem[b]?.bind fun other =>
      extendItems low (if b = a then none else some other.mItems) other.mItems.length 0 mItems
  | .clear => some []
  | .senderAwaitsResponse => (MessageMemory.senderAwaitsResponse low mItems).map Prod.fst

def exec : Call → Option Memory
  | .new mWhat => some (mem ++ [{ mWhat }])
  | .setWhat a mWhat => mem[a]?.map fun m => List.set mem a { m with mWhat }
  | .change a c => do
    let m ← mem[a]?
    let mItems ← mem.apply low a c m.mItems
    return List.set mem a { m with mItems }

end Memory

end MediaFramework.Foundation.MessageMemory
