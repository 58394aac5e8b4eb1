import MediaFramework.Mtp.MtpDataPacket

/-!
# Properties

`media/mtp/MtpProperty.cpp`. Arrays are lists; what new memory holds is a parameter.
-/

namespace MediaFramework.Mtp

abbrev MtpDataType := BitVec 16

def MTP_TYPE_INT8 : MtpDataType := 0x0001
def MTP_TYPE_UINT8 : MtpDataType := 0x0002
def MTP_TYPE_INT16 : MtpDataType := 0x0003
def MTP_TYPE_UINT16 : MtpDataType := 0x0004
def MTP_TYPE_INT32 : MtpDataType := 0x0005
def MTP_TYPE_UINT32 : MtpDataType := 0x0006
def MTP_TYPE_INT64 : MtpDataType := 0x0007
def MTP_TYPE_UINT64 : MtpDataType := 0x0008
def MTP_TYPE_INT128 : MtpDataType := 0x0009
def MTP_TYPE_UINT128 : MtpDataType := 0x000A
def MTP_TYPE_AINT8 : MtpDataType := 0x4001
def MTP_TYPE_AUINT8 : MtpDataType := 0x4002
def MTP_TYPE_AINT16 : MtpDataType := 0x4003
def MTP_TYPE_AUINT16 : MtpDataType := 0x4004
def MTP_TYPE_AINT32 : MtpDataType := 0x4005
def MTP_TYPE_AUINT32 : MtpDataType := 0x4006
def MTP_TYPE_AINT64 : MtpDataType := 0x4007
def MTP_TYPE_AUINT64 : MtpDataType := 0x4008
def MTP_TYPE_AINT128 : MtpDataType := 0x4009
def MTP_TYPE_AUINT128 : MtpDataType := 0x400A
def MTP_TYPE_STR : MtpDataType := 0xFFFF

def INT32_MAX : Nat := 2 ^ 31 - 1

/-- `sizeof(MtpPropertyValue)`: the union and a pointer. -/
def sizeofMtpPropertyValue : Nat := 24

/-- The union as its bytes, the first of them lowest, and the string. -/
structure MtpPropertyValue where
  u : BitVec 128 := 0
  str : Option (List Char) := none
  deriving DecidableEq

/-- The union with a member of `w` bits stored. -/
def MtpPropertyValue.store {w : Nat} (value : MtpPropertyValue) (member : BitVec w) :
    MtpPropertyValue :=
  { value with u := (value.u >>> w) <<< w ||| member.setWidth 128 }

/-- The cases of `readValue` and `writeValue`. -/
inductive ValueCase
  | i8 | u8 | i16 | u16 | i32 | u32 | i64 | u64 | i128 | u128 | str
  deriving DecidableEq

def valueCase (mType : MtpDataType) : Option ValueCase :=
  if mType = MTP_TYPE_INT8 ∨ mType = MTP_TYPE_AINT8 then some .i8
  else if mType = MTP_TYPE_UINT8 ∨ mType = MTP_TYPE_AUINT8 then some .u8
  else if mType = MTP_TYPE_INT16 ∨ mType = MTP_TYPE_AINT16 then some .i16
  else if mType = MTP_TYPE_UINT16 ∨ mType = MTP_TYPE_AUINT16 then some .u16
  else if mType = MTP_TYPE_INT32 ∨ mType = MTP_TYPE_AINT32 then some .i32
  else if mType = MTP_TYPE_UINT32 ∨ mType = MTP_TYPE_AUINT32 then some .u32
  else if mType = MTP_TYPE_INT64 ∨ mType = MTP_TYPE_AINT64 then some .i64
  else if mType = MTP_TYPE_UINT64 ∨ mType = MTP_TYPE_AUINT64 then some .u64
  else if mType = MTP_TYPE_INT128 ∨ mType = MTP_TYPE_AINT128 then some .i128
  else if mType = MTP_TYPE_UINT128 ∨ mType = MTP_TYPE_AUINT128 then some .u128
  else if mType = MTP_TYPE_STR then some .str
  else none

def isArrayType (mType : MtpDataType) : Bool :=
  mType ∈ [MTP_TYPE_AINT8, MTP_TYPE_AUINT8, MTP_TYPE_AINT16, MTP_TYPE_AUINT16, MTP_TYPE_AINT32,
    MTP_TYPE_AUINT32, MTP_TYPE_AINT64, MTP_TYPE_AUINT64, MTP_TYPE_AINT128, MTP_TYPE_AUINT128]

def readValue (mType : MtpDataType) (value : MtpPropertyValue) : Packet MtpPropertyValue :=
  match valueCase mType with
  | some .i8 | some .u8 => do return value.store (← getUInt8)
  | some .i16 | some .u16 => do return value.store (← getUInt16)
  | some .i32 | some .u32 => do return value.store (← getUInt32)
  | some .i64 | some .u64 => do return value.store (← getUInt64)
  | some .i128 | some .u128 => do return value.store (← getUInt128)
  | some .str => do return { value with str := some (← getString) }
  | none => failure

def writeValue (mType : MtpDataType) (value : MtpPropertyValue) : Packet Unit :=
  match valueCase mType with
  | some .i8 | some .u8 => putUInt8 (value.u.setWidth 8)
  | some .i16 | some .u16 => putUInt16 (value.u.setWidth 16)
  | some .i32 | some .u32 => putUInt32 (value.u.setWidth 32)
  | some .i64 | some .u64 => putUInt64 (value.u.setWidth 64)
  | some .i128 | some .u128 => putUInt128 value.u
  | some .str =>
    match value.str with
    | some s => putString s
    | none => putEmptyString
  | none => return ()

variable (junk : MtpPropertyValue)

def readValues (mType : MtpDataType) : Nat → Packet (List MtpPropertyValue)
  | 0 => return []
  | length + 1 => do
    let value ← readValue mType junk
    let values ← readValues mType length
    return value :: values

def writeValues (mType : MtpDataType) : List MtpPropertyValue → Packet Unit
  | [] => return ()
  | value :: values => do
    writeValue mType value
    writeValues mType values

def readArrayValues (mType : MtpDataType) : Packet (List MtpPropertyValue) := do
  let length ← getUInt32
  if length = 0 ∨ length.toNat ≥ INT32_MAX / sizeofMtpPropertyValue then failure
  else readValues junk mType length.toNat

def writeArrayValues (mType : MtpDataType) (values : List MtpPropertyValue) : Packet Unit := do
  putUInt32 (BitVec.ofNat 32 values.length)
  writeValues mType values

def kFormNone : BitVec 8 := 0
def kFormRange : BitVec 8 := 1
def kFormEnum : BitVec 8 := 2
def kFormDateTime : BitVec 8 := 3

/-- The lengths of the arrays are those of the lists. -/
structure MtpProperty where
  mCode : BitVec 16 := 0
  mType : MtpDataType := 0
  mWriteable : Bool := false
  mDefaultValue : MtpPropertyValue := {}
  mCurrentValue : MtpPropertyValue := {}
  mDefaultArrayValues : List MtpPropertyValue := []
  mCurrentArrayValues : List MtpPropertyValue := []
  mGroupCode : BitVec 32 := 0
  mFormFlag : BitVec 8 := kFormNone
  mMinimumValue : MtpPropertyValue := {}
  mMaximumValue : MtpPropertyValue := {}
  mStepSize : MtpPropertyValue
  mEnumValues : List MtpPropertyValue := []
  deriving DecidableEq

namespace MtpProperty

/-- `MtpProperty()`, which leaves the step size as it is. -/
def fresh : MtpProperty := { mStepSize := junk }

variable (p : MtpProperty)

def isDeviceProperty : Bool := p.mCode &&& 0xF000 = 0x5000 ∨ p.mCode &&& 0xF800 = 0xD000

/-- The values of `read`. -/
def readDefault : Packet MtpProperty :=
  if isArrayType p.mType then do
    let p := { p with mDefaultArrayValues := ← readArrayValues junk p.mType }
    if p.isDeviceProperty then
      return { p with mCurrentArrayValues := ← readArrayValues junk p.mType }
    else return p
  else do
    let p := { p with mDefaultValue := ← readValue p.mType p.mDefaultValue }
    if p.isDeviceProperty then
      return { p with mCurrentValue := ← readValue p.mType p.mCurrentValue }
    else return p

def readGroupCode : Packet MtpProperty :=
  if p.isDeviceProperty then return p
  else do return { p with mGroupCode := ← getUInt32 }

/-- The form of `read`. -/
def readForm : Packet MtpProperty := do
  let p := { p with mFormFlag := ← getUInt8 }
  if p.mFormFlag = kFormRange then
    let p := { p with mMinimumValue := ← readValue p.mType p.mMinimumValue }
    let p := { p with mMaximumValue := ← readValue p.mType p.mMaximumValue }
    return { p with mStepSize := ← readValue p.mType p.mStepSize }
  else if p.mFormFlag = kFormEnum then
    let length ← getUInt16
    return { p with mEnumValues := ← readValues junk p.mType length.toNat }
  else return p

def read : Packet MtpProperty := do
  let p := { p with mCode := ← getUInt16 }
  let p := { p with mType := ← getUInt16 }
  let temp8 ← getUInt8
  let p := { p with mWriteable := temp8 = 1 }
  let p ← p.readDefault junk
  let p ← p.readGroupCode
  p.readForm junk

def writeDefault : Packet Unit :=
  if isArrayType p.mType then do
    writeArrayValues p.mType p.mDefaultArrayValues
    if p.isDeviceProperty then writeArrayValues p.mType p.mCurrentArrayValues
  else do
    writeValue p.mType p.mDefaultValue
    if p.isDeviceProperty then writeValue p.mType p.mCurrentValue

def writeGroupCode : Packet Unit :=
  if p.isDeviceProperty then return () else putUInt32 p.mGroupCode

def writeForm : Packet Unit := do
  putUInt8 p.mFormFlag
  if p.mFormFlag = kFormRange then
    writeValue p.mType p.mMinimumValue
    writeValue p.mType p.mMaximumValue
    writeValue p.mType p.mStepSize
  else if p.mFormFlag = kFormEnum then
    putUInt16 (BitVec.ofNat 16 p.mEnumValues.length)
    writeValues p.mType p.mEnumValues

def write : Packet Unit := do
  putUInt16 p.mCode
  putUInt16 p.mType
  putUInt8 (if p.mWriteable then 1 else 0)
  p.writeDefault
  p.writeGroupCode
  p.writeForm

end MtpProperty

end MediaFramework.Mtp
