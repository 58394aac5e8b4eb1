import MediaFramework.ImgUtils.TiffWriter

/-!
# The format of TIFF headers

Directories as a TIFF 6.0 reader recovers them from a file, the bytes that hold them at an offset, and
that the reader recovers them from these bytes.
-/

namespace MediaFramework.ImgUtils

open Endian (encode encodeAll read readAll)
open TagType

/-! ## Types -/

namespace TagType

def ofCode : Nat → Option TagType
  | 1 => some BYTE
  | 2 => some ASCII
  | 3 => some SHORT
  | 4 => some LONG
  | 5 => some RATIONAL
  | 6 => some SBYTE
  | 7 => some UNDEFINED
  | 8 => some SSHORT
  | 9 => some SLONG
  | 10 => some SRATIONAL
  | 11 => some FLOAT
  | 12 => some DOUBLE
  | _ => none

/-- The bytes of an element. -/
def elementSize : TagType → Nat
  | UNKNOWN_TAGTYPE => 0
  | BYTE | ASCII | SBYTE | UNDEFINED => 1
  | SHORT | SSHORT => 2
  | LONG | SLONG | FLOAT | RATIONAL | SRATIONAL => 4
  | DOUBLE => 8

/-- The elements of a value. -/
def arity : TagType → Nat
  | RATIONAL | SRATIONAL => 2
  | _ => 1

variable {type : TagType} {count : Nat}

theorem ofCode_code (h : type ≠ UNKNOWN_TAGTYPE) : ofCode type.code = some type := by
  cases type with
  | UNKNOWN_TAGTYPE => exact absurd rfl h
  | _ => rfl

theorem code_lt (type : TagType) : type.code < 256 ^ 2 := by cases type <;> decide

theorem elementSize_pos (h : type ≠ UNKNOWN_TAGTYPE) : 0 < type.elementSize := by
  cases type with
  | UNKNOWN_TAGTYPE => exact absurd rfl h
  | _ => decide

theorem arity_pos (type : TagType) : 0 < type.arity := by cases type <;> decide

end TagType

/-! ## Directories -/

/-- The entries of an IFD. -/
inductive Directory
  | nil
  | values (tag : Nat) (type : TagType) (count : Nat) (data : List Nat) (rest : Directory)
  /-- One value of type `LONG`: where the entries of another IFD are. -/
  | sub (tag : Nat) (ifd : Directory) (rest : Directory)
  deriving DecidableEq, Repr

/-- What ends on a word. -/
def aligned (n : Nat) : Nat := n + bytesTillWord n

def padding (n : Nat) : List Byte := List.replicate (bytesTillWord n) 0

def valueLength (type : TagType) (count : Nat) : Nat := type.elementSize * (type.arity * count)

/-- The room for values outside of their entry. -/
def valueSize (type : TagType) (count : Nat) : Nat :=
  if valueLength type count ≤ 4 then 0 else aligned (valueLength type count)

/-- The number of the entries, the entries and the offset of the next IFD. -/
def tableSize (n : Nat) : Nat := 2 + 12 * n + 4

def IsIfdTag (tag : Nat) : Prop := tag = TAG_SUBIFDS ∨ tag = TAG_GPSINFO

instance (tag : Nat) : Decidable (IsIfdTag tag) := inferInstanceAs (Decidable (_ ∨ _))

structure ProperValues (tag : Nat) (type : TagType) (count : Nat) (data : List Nat) : Prop where
  tag_lt : tag < 2 ^ 16
  not_ifd : ¬IsIfdTag tag
  type_ne : type ≠ UNKNOWN_TAGTYPE
  count_pos : 0 < count
  count_lt : count < 2 ^ 32
  length : data.length = type.arity * count
  fits : ∀ x ∈ data, x < 256 ^ type.elementSize

structure Region where
  start : Nat
  length : Nat
  deriving DecidableEq, Repr

def Region.stop (r : Region) : Nat := r.start + r.length

namespace Directory

def length : Directory → Nat
  | nil => 0
  | values _ _ _ _ rest => rest.length + 1
  | sub _ _ rest => rest.length + 1

def valuesSize : Directory → Nat
  | nil => 0
  | values _ type count _ rest => valueSize type count + rest.valuesSize
  | sub _ ifd rest => aligned (tableSize ifd.length) + ifd.valuesSize + rest.valuesSize

def size (d : Directory) : Nat := aligned (tableSize d.length) + d.valuesSize

/-- The entries and those of the IFDs that they hold. -/
def nodes : Directory → Nat
  | nil => 0
  | values _ _ _ _ rest => rest.nodes + 1
  | sub _ ifd rest => ifd.nodes + rest.nodes + 1

def tags : Directory → List Nat
  | nil => []
  | values tag _ _ _ rest => tag :: rest.tags
  | sub tag _ rest => tag :: rest.tags

/-- The tags increase, in all IFDs. -/
def Sorted : Directory → Prop
  | nil => True
  | values tag _ _ _ rest => (∀ t ∈ rest.tags, tag < t) ∧ rest.Sorted
  | sub tag ifd rest => (∀ t ∈ rest.tags, tag < t) ∧ ifd.Sorted ∧ rest.Sorted

def Proper : Directory → Prop
  | nil => True
  | values tag type count data rest => ProperValues tag type count data ∧ rest.Proper
  | sub tag ifd rest => IsIfdTag tag ∧ (0 < ifd.length ∧ ifd.length < 2 ^ 16) ∧ ifd.Proper ∧ rest.Proper

end Directory

/-! ## Reading -/

section

variable (big : Bool) (bytes : List Byte)

def readValues (offset : Nat) (type : TagType) (count : Nat) : Option (List Nat × List Region) :=
  if valueLength type count ≤ 4 then
    (readAll big bytes offset type.elementSize (type.arity * count)).map fun data => (data, [])
  else do
    let start ← read big bytes offset 4
    let data ← readAll big bytes start type.elementSize (type.arity * count)
    some (data, [⟨start, valueLength type count⟩])

/-- The entries of an IFD, with where the values outside of them and the IFDs that they hold are. -/
def readEntries : Nat → Nat → Nat → Option (Directory × List Region)
  | _, _, 0 => some (.nil, [])
  | 0, _, _ + 1 => none
  | fuel + 1, offset, n + 1 => do
    let tag ← read big bytes offset 2
    let type ← TagType.ofCode (← read big bytes (offset + 2) 2)
    let count ← read big bytes (offset + 4) 4
    if IsIfdTag tag then
      if type = LONG ∧ count = 1 then do
        let start ← read big bytes (offset + 8) 4
        let k ← read big bytes start 2
        let (ifd, regions) ← readEntries fuel (start + 2) k
        if (← read big bytes (start + 2 + 12 * k) 4) = 0 then do
          let (rest, regions') ← readEntries fuel (offset + 12) n
          some (.sub tag ifd rest, ⟨start, tableSize k⟩ :: (regions ++ regions'))
        else none
      else none
    else do
      let (data, regions) ← readValues big bytes (offset + 8) type count
      let (rest, regions') ← readEntries fuel (offset + 12) n
      some (.values tag type count data rest, regions ++ regions')

/-- The IFDs that are chained to the one at an offset. -/
def readChain : Nat → Nat → Option (List Directory × List Region)
  | 0, offset => if offset = 0 then some ([], []) else none
  | fuel + 1, offset =>
    if offset = 0 then some ([], [])
    else do
      let k ← read big bytes offset 2
      let (ifd, regions) ← readEntries big bytes bytes.length (offset + 2) k
      let next ← read big bytes (offset + 2 + 12 * k) 4
      let (ifds, regions') ← readChain fuel next
      some (ifd :: ifds, ⟨offset, tableSize k⟩ :: (regions ++ regions'))

end

/-- Whether the byte order that a marker tells is big-endian. -/
def byteOrder (marker : Nat) : Option Bool :=
  if marker = BIG_ENDIAN_MARKER then some true
  else if marker = LITTLE_ENDIAN_MARKER then some false
  else none

/-- All IFDs of a file, with where they and their values are. -/
def readFile (bytes : List Byte) : Option (List Directory × List Region) := do
  let big ← byteOrder (← read false bytes 0 2)
  if (← read big bytes 2 2) = TIFF_FILE_MARKER then
    readChain big bytes bytes.length (← read big bytes 4 4)
  else none

/-! ## Layout -/

section

variable (big : Bool)

def info (tag : Nat) (type : TagType) (count : Nat) : List Byte :=
  encode big 2 tag ++ (encode big 2 type.code ++ encode big 4 count)

def outside (type : TagType) (count : Nat) (data : List Nat) : List Byte :=
  encodeAll big type.elementSize data ++ padding (valueLength type count)

namespace Directory

/-- The entries, with the values that are not inside from an offset on. -/
def infos : Directory → Nat → List Byte
  | nil, _ => []
  | values tag type count data rest, at' =>
    info big tag type count
      ++ ((if valueLength type count ≤ 4 then outside big type count data else encode big 4 at')
        ++ rest.infos (at' + valueSize type count))
  | sub tag ifd rest, at' =>
    info big tag LONG 1 ++ (encode big 4 at' ++ rest.infos (at' + ifd.size))

/-- The IFD at an offset, without its values. -/
def table (d : Directory) (next offset : Nat) : List Byte :=
  encode big 2 d.length ++ (d.infos big (offset + aligned (tableSize d.length))
    ++ (encode big 4 next ++ padding (tableSize d.length)))

/-- The values that are not inside of entries, from an offset on. -/
def data : Directory → Nat → List Byte
  | nil, _ => []
  | values _ type count data rest, at' =>
    (if valueLength type count ≤ 4 then [] else outside big type count data)
      ++ rest.data (at' + valueSize type count)
  | sub _ ifd rest, at' =>
    (ifd.table big 0 at' ++ ifd.data (at' + aligned (tableSize ifd.length)))
      ++ rest.data (at' + ifd.size)

def bytes (d : Directory) (next offset : Nat) : List Byte :=
  d.table big next offset ++ d.data big (offset + aligned (tableSize d.length))

end Directory

def chainBytes : List Directory → Nat → List Byte
  | [], _ => []
  | d :: ds, offset =>
    d.bytes big (if ds.isEmpty then 0 else offset + d.size) offset ++ chainBytes ds (offset + d.size)

def byteOrderMarker : Nat := if big then BIG_ENDIAN_MARKER else LITTLE_ENDIAN_MARKER

def headerBytes : List Byte :=
  encode big 2 (byteOrderMarker big)
    ++ (encode big 2 TIFF_FILE_MARKER ++ encode big 4 FILE_HEADER_SIZE)

def fileBytes (ds : List Directory) : List Byte := headerBytes big ++ chainBytes big ds FILE_HEADER_SIZE

end

def Directory.regions : Directory → Nat → List Region
  | .nil, _ => []
  | .values _ type count _ rest, at' =>
    (if valueLength type count ≤ 4 then [] else [⟨at', valueLength type count⟩])
      ++ rest.regions (at' + valueSize type count)
  | .sub _ ifd rest, at' =>
    ⟨at', tableSize ifd.length⟩
      :: (ifd.regions (at' + aligned (tableSize ifd.length)) ++ rest.regions (at' + ifd.size))

def chainRegions : List Directory → Nat → List Region
  | [], _ => []
  | d :: ds, offset =>
    ⟨offset, tableSize d.length⟩
      :: (d.regions (offset + aligned (tableSize d.length)) ++ chainRegions ds (offset + d.size))

def chainSize (ds : List Directory) : Nat := (ds.map Directory.size).sum

def fileSize (ds : List Directory) : Nat := FILE_HEADER_SIZE + chainSize ds

end MediaFramework.ImgUtils
