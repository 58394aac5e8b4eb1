import Mathlib.Data.BitVec
import MediaFramework.Lib.Text
import MediaFramework.Lib.Heap

/-!
# Media analytics items

The properties of a `MediaAnalyticsItem` (`media/libmediametrics/MediaAnalyticsItem.cpp`): an array of
slots, each with a name and a value, whose strings are allocated. An operation is undefined, `none`,
where it reads or frees memory that is not allocated. Allocations do not fail.
-/

namespace MediaFramework.MediaMetrics

/-- The type of a property and its union `u`, with strings of type `σ`. -/
inductive PropValue (σ : Type) where
  | kTypeNone
  | int32Value (v : BitVec 32)
  | int64Value (v : BitVec 64)
  | doubleValue (v : BitVec 64)
  | CStringValue (s : σ)
  | rate (count duration : BitVec 64)
  deriving DecidableEq

namespace PropValue

variable {σ : Type}

def int32? : PropValue σ → Option (BitVec 32)
  | int32Value v => some v
  | _ => none

def int64? : PropValue σ → Option (BitVec 64)
  | int64Value v => some v
  | _ => none

def double? : PropValue σ → Option (BitVec 64)
  | doubleValue v => some v
  | _ => none

def CString? : PropValue σ → Option σ
  | CStringValue s => some s
  | _ => none

def rate? : PropValue σ → Option (BitVec 64 × BitVec 64)
  | rate count duration => some (count, duration)
  | _ => none

def plusInt32 (value : BitVec 32) (u : PropValue σ) : Option (PropValue σ) :=
  u.int32?.map fun v => int32Value (v + value)

def plusInt64 (value : BitVec 64) (u : PropValue σ) : Option (PropValue σ) :=
  u.int64?.map fun v => int64Value (v + value)

/-- `plus` is the addition of doubles. -/
def plusDouble (plus : BitVec 64 → BitVec 64 → BitVec 64) (value : BitVec 64) (u : PropValue σ) :
    Option (PropValue σ) :=
  u.double?.map fun v => doubleValue (plus v value)

def plusRate (count duration : BitVec 64) (u : PropValue σ) : Option (PropValue σ) :=
  u.rate?.map fun v => rate (v.1 + count) (v.2 + duration)

end PropValue

/-- `Prop`: a slot, with pointers to its name and its string. -/
structure Property where
  u : PropValue Nat := .kTypeNone
  mName : Option Nat := none
  mNameLen : Nat := 0
  deriving DecidableEq

/-- The slots, of which the first `mPropCount` are in use, and the memory. -/
structure MediaAnalyticsItem where
  mProps : List Property := []
  mPropCount : Nat := 0
  heap : Heap CString := .empty

/-! ### Slots -/

/-- Null is not freed. -/
def freeString (heap : Heap CString) : Option Nat → Option (Heap CString)
  | none => some heap
  | some p => heap.free p

namespace Property

def setName (heap : Heap CString) (prop : Property) (name : CString) :
    Option (Heap CString × Property) := do
  let heap ← freeString heap prop.mName
  let (p, heap) := heap.malloc name
  return (heap, { prop with mName := some p, mNameLen := name.bytes.length })

def clearPropValue (heap : Heap CString) (prop : Property) : Option (Heap CString × Property) :=
  match prop.u with
  | .CStringValue p => (heap.free p).map fun heap => (heap, { prop with u := .kTypeNone })
  | _ => some (heap, { prop with u := .kTypeNone })

def clearProp (heap : Heap CString) (prop : Property) : Option (Heap CString × Property) :=
  match prop.mName with
  | none => prop.clearPropValue heap
  | some p => do
    let heap ← heap.free p
    clearPropValue heap { prop with mName := none, mNameLen := 0 }

/-- The value with a copy of its string. -/
def copyValue (heap : Heap CString) : PropValue Nat → Option (Heap CString × PropValue Nat)
  | .CStringValue p => do
    let s ← heap.blocks p
    let (p, heap) := heap.malloc s
    return (heap, .CStringValue p)
  | u => some (heap, u)

def copyName (heap : Heap CString) : Option Nat → Option (Heap CString × Option Nat)
  | none => some (heap, none)
  | some p => do
    let s ← heap.blocks p
    let (p, heap) := heap.malloc s
    return (heap, some p)

/-- The copy has strings of its own. -/
def copyProp (heap : Heap CString) (dst src : Property) : Option (Heap CString × Property) := do
  let (heap, _) ← dst.clearProp heap
  let (heap, mName) ← copyName heap src.mName
  let (heap, u) ← copyValue heap src.u
  return (heap, { src with mName, u })

/-- The comparison of `findPropIndex`: the lengths, then the bytes. -/
def named (heap : Heap CString) (prop : Property) (name : CString) : Option Bool :=
  if prop.mNameLen ≠ name.bytes.length then some false
  else do
    let p ← prop.mName
    let s ← heap.blocks p
    return s = name

end Property

/-! ### The array -/

/-- The index of the first slot with the name, else the number of slots. -/
def findIndex (heap : Heap CString) (name : CString) : List Property → Option Nat
  | [] => some 0
  | prop :: props => do
    if ← prop.named heap name then return 0
    else return (← findIndex heap name props) + 1

namespace MediaAnalyticsItem

def kGrowProps : Nat := 10

def findPropIndex (item : MediaAnalyticsItem) (name : CString) : Option Nat :=
  findIndex item.heap name (item.mProps.take item.mPropCount)

/-- An operation on a slot. -/
def onProp (item : MediaAnalyticsItem) (i : Nat)
    (f : Heap CString → Property → Option (Heap CString × Property)) : Option MediaAnalyticsItem := do
  let prop ← item.mProps[i]?
  let (heap, prop) ← f item.heap prop
  return { item with mProps := item.mProps.set i prop, heap }

/-- New slots are initialised. -/
def growProps (item : MediaAnalyticsItem) : MediaAnalyticsItem :=
  { item with mProps := item.mProps ++ List.replicate kGrowProps {} }

/-- The slot of the name, the next one if there is none. -/
def allocateProp (item : MediaAnalyticsItem) (name : CString) :
    Option (Nat × MediaAnalyticsItem) := do
  let i ← item.findPropIndex name
  if i < item.mPropCount then return (i, item)
  else
    let item := if i = item.mProps.length then item.growProps else item
    let item ← item.onProp item.mPropCount fun heap prop => prop.setName heap name
    return (item.mPropCount, { item with mPropCount := item.mPropCount + 1 })

def clearAt (item : MediaAnalyticsItem) (i : Nat) : Option MediaAnalyticsItem :=
  item.onProp i fun heap prop => prop.clearProp heap

/-- The last property is copied to the place of one in the middle. Whether there was one. -/
def removeProp (item : MediaAnalyticsItem) (name : CString) : Option (Bool × MediaAnalyticsItem) := do
  let i ← item.findPropIndex name
  if i < item.mPropCount then
    let item ← item.clearAt i
    if i ≠ item.mPropCount - 1 then
      let last ← item.mProps[item.mPropCount - 1]?
      let item ← item.onProp i fun heap prop => prop.copyProp heap last
      let item ← item.clearAt (item.mPropCount - 1)
      return (true, { item with mPropCount := item.mPropCount - 1 })
    else return (true, { item with mPropCount := item.mPropCount - 1 })
  else return (false, item)

/-- One round of `filter`: the slot of the last property is brought down to the place of one in the
middle, and stays as it is. -/
def filterOne (item : MediaAnalyticsItem) (name : CString) : Option (Bool × MediaAnalyticsItem) := do
  let j ← item.findPropIndex name
  if item.mPropCount ≤ j then return (false, item)
  else if j + 1 = item.mPropCount then
    let item ← item.clearAt j
    return (true, { item with mPropCount := item.mPropCount - 1 })
  else
    let item ← item.clearAt j
    let last ← item.mProps[item.mPropCount - 1]?
    return (true, { item with
      mProps := item.mProps.set j last
      mPropCount := item.mPropCount - 1 })

def filterLoop (item : MediaAnalyticsItem) (zapped : Int) :
    List CString → Option (Int × MediaAnalyticsItem)
  | [] => some (zapped, item)
  | name :: attrs => do
    let (found, item) ← item.filterOne name
    filterLoop item (if found then zapped + 1 else zapped) attrs

/-- The number of properties that have been removed. -/
def filter (item : MediaAnalyticsItem) (attrs : List CString) : Option (Int × MediaAnalyticsItem) :=
  if attrs = [] then some (-1, item) else item.filterLoop 0 attrs

/-- The properties in use are cleared, and the array is freed. -/
def clear (item : MediaAnalyticsItem) : Option MediaAnalyticsItem := do
  let item ← (List.range item.mPropCount).foldlM clearAt item
  return { item with mProps := [], mPropCount := 0 }

/-! ### Values -/

/-- The slot of the name, and what is done with it. -/
def update (item : MediaAnalyticsItem) (name : CString)
    (f : Heap CString → Property → Option (Heap CString × Property)) : Option MediaAnalyticsItem := do
  let (i, item) ← item.allocateProp name
  item.onProp i f

/-- A new value in place of any old one. -/
def setValue (make : Heap CString → Heap CString × PropValue Nat) (heap : Heap CString)
    (prop : Property) : Option (Heap CString × Property) := do
  let (heap, prop) ← prop.clearPropValue heap
  let (heap, u) := make heap
  return (heap, { prop with u })

def setInt32 (item : MediaAnalyticsItem) (name : CString) (value : BitVec 32) :=
  item.update name (setValue fun heap => (heap, .int32Value value))

def setInt64 (item : MediaAnalyticsItem) (name : CString) (value : BitVec 64) :=
  item.update name (setValue fun heap => (heap, .int64Value value))

def setDouble (item : MediaAnalyticsItem) (name : CString) (value : BitVec 64) :=
  item.update name (setValue fun heap => (heap, .doubleValue value))

def setCString (item : MediaAnalyticsItem) (name value : CString) :=
  item.update name
    (setValue fun heap => ((heap.malloc value).2, .CStringValue (heap.malloc value).1))

def setRate (item : MediaAnalyticsItem) (name : CString) (count duration : BitVec 64) :=
  item.update name (setValue fun heap => (heap, .rate count duration))

/-- The sum with a value of the type, where there is one, else a set. -/
def addValue (sum : PropValue Nat → Option (PropValue Nat)) (value : PropValue Nat)
    (heap : Heap CString) (prop : Property) : Option (Heap CString × Property) :=
  match sum prop.u with
  | some u => some (heap, { prop with u })
  | none => setValue (fun heap => (heap, value)) heap prop

def addInt32 (item : MediaAnalyticsItem) (name : CString) (value : BitVec 32) :=
  item.update name (addValue (PropValue.plusInt32 value) (.int32Value value))

def addInt64 (item : MediaAnalyticsItem) (name : CString) (value : BitVec 64) :=
  item.update name (addValue (PropValue.plusInt64 value) (.int64Value value))

def addDouble (plus : BitVec 64 → BitVec 64 → BitVec 64) (item : MediaAnalyticsItem)
    (name : CString) (value : BitVec 64) :=
  item.update name (addValue (PropValue.plusDouble plus value) (.doubleValue value))

def addRate (item : MediaAnalyticsItem) (name : CString) (count duration : BitVec 64) :=
  item.update name (addValue (PropValue.plusRate count duration) (.rate count duration))

/-! ### Reading -/

def findProp (item : MediaAnalyticsItem) (name : CString) : Option (Option Property) := do
  let i ← item.findPropIndex name
  if i < item.mPropCount then return item.mProps[i]? else return none

/-- The value of the name, where `field` finds its type. -/
def get {α : Type} (field : Heap CString → PropValue Nat → Option (Option α))
    (item : MediaAnalyticsItem) (name : CString) : Option (Option α) := do
  match ← item.findProp name with
  | none => return none
  | some prop => field item.heap prop.u

def getInt32 := get fun _ u => some u.int32?

def getInt64 := get fun _ u => some u.int64?

def getDouble := get fun _ u => some u.double?

/-- The count and the duration, of which the rate is the quotient. -/
def getRate := get fun _ u => some u.rate?

/-- `getCString`, and `getString`: a copy of the string. -/
def getCString := get fun heap u =>
  match u.CString? with
  | some p => (heap.blocks p).map some
  | none => some none

end MediaAnalyticsItem

/-! ### Calls -/

inductive Call where
  | setInt32 (name : CString) (value : BitVec 32)
  | setInt64 (name : CString) (value : BitVec 64)
  | setDouble (name : CString) (value : BitVec 64)
  | setCString (name value : CString)
  | setRate (name : CString) (count duration : BitVec 64)
  | addInt32 (name : CString) (value : BitVec 32)
  | addInt64 (name : CString) (value : BitVec 64)
  | addDouble (name : CString) (value : BitVec 64)
  | addRate (name : CString) (count duration : BitVec 64)
  | removeProp (name : CString)
  | filter (attrs : List CString)
  | clear

def MediaAnalyticsItem.call (plus : BitVec 64 → BitVec 64 → BitVec 64) (item : MediaAnalyticsItem) :
    Call → Option MediaAnalyticsItem
  | .setInt32 name value => item.setInt32 name value
  | .setInt64 name value => item.setInt64 name value
  | .setDouble name value => item.setDouble name value
  | .setCString name value => item.setCString name value
  | .setRate name count duration => item.setRate name count duration
  | .addInt32 name value => item.addInt32 name value
  | .addInt64 name value => item.addInt64 name value
  | .addDouble name value => item.addDouble plus name value
  | .addRate name count duration => item.addRate name count duration
  | .removeProp name => (item.removeProp name).map Prod.snd
  | .filter attrs => (item.filter attrs).map Prod.snd
  | .clear => item.clear

end MediaFramework.MediaMetrics
