import MediaFramework.Lib.KeyedVector
import Mathlib.Data.Int.Notation
import Mathlib.Data.Finset.Insert

/-!
# The boxes of an item table

How `ItemTable` (`media/extractors/mp4`) reads each box of a HEIF `meta` box. A box that fails leaves
what it has added to the vectors until then. Identifiers, counts and types are natural numbers here,
the offsets of a file wrap around.
-/

namespace MediaFramework.Mp4.Heif

inductive Status
  | OK
  | ERROR_MALFORMED
  | ERROR_IO
  | ERROR_UNSUPPORTED
  | ERROR_END_OF_STREAM
  | INVALID_OPERATION
  | BAD_VALUE
  | NAME_NOT_FOUND
  | NO_MEMORY
  deriving DecidableEq, Repr

open Heif.Status

def FOURCC (a b c d : Char) : Nat :=
  ((a.toNat * 256 + b.toNat) * 256 + c.toNat) * 256 + d.toNat

/-- A 64-bit file offset. -/
def off64 (x : Int) : Int := x.bmod (2^64)

/-- `readAt` gives what it returns and what the buffer holds then, whatever that is where nothing has
been read. -/
structure DataSource where
  readAt : Int → Nat → Int × (Nat → BitVec 8)
  hasMemory : Nat → Bool

namespace DataSource

variable (source : DataSource)

def bigEndian (bytes : Nat → BitVec 8) : Nat → Nat
  | 0 => 0
  | n + 1 => bigEndian bytes n * 256 + (bytes n).toNat

/-- `getUInt16`, `getUInt24`, `getUInt32` and `getUInt64`, by the number of bytes. -/
def getUInt (offset : Int) (bytes : Nat) : Option Nat :=
  if (source.readAt offset bytes).1 = bytes then
    some (bigEndian (source.readAt offset bytes).2 bytes)
  else none

/-- `getUInt16Var`, `getUInt32Var` and `getUInt64Var`, by the number of bytes of the result. -/
def getUIntVar (offset : Int) (bytes size : Nat) : Option Nat :=
  if size = bytes ∨ 2 * size = bytes then source.getUInt offset size else none

/-- A byte where `readAt` does not return 0. -/
def readByte (offset : Int) : Option Nat :=
  if (source.readAt offset 1).1 = 0 then none else some ((source.readAt offset 1).2 0).toNat

/-- `size` bytes where `readAt` returns that many. -/
def readBytes (offset : Int) (size : Nat) : Option (List (BitVec 8)) :=
  if (source.readAt offset size).1 < size then none
  else some ((List.range size).map (source.readAt offset size).2)

end DataSource

/-- Reading a box, with the vectors that it adds to. -/
abbrev Parsing (σ α : Type) : Type := ExceptT Status (StateM σ) α

variable {σ : Type}

def demand (c : Prop) [Decidable c] (err : Status) : Parsing σ Unit :=
  if c then return else throw err

/-- What has been read, else an `ERROR_IO`. -/
def expect {α : Type} (x : Option α) : Parsing σ α := x.elim (throw ERROR_IO) pure

/-! ### Boxes -/

/-- The next offset. -/
def parseChunk (source : DataSource) (onChunkData : Nat → Int → Nat → Parsing σ Unit)
    (offset : Int) : Parsing σ Int := do
  demand (0 ≤ offset) .ERROR_MALFORMED
  let hdr := source.readAt offset 8
  demand (8 ≤ hdr.1) ERROR_IO
  let chunk_type := DataSource.bigEndian (fun i => hdr.2 (i + 4)) 4
  let (chunk_size, headerSize) ← (match DataSource.bigEndian hdr.2 4 with
    | 0 => throw .ERROR_MALFORMED
    | 1 => do
      let large := source.readAt (off64 (offset + 8)) 8
      demand (8 ≤ large.1) ERROR_IO
      demand (16 ≤ DataSource.bigEndian large.2 8) .ERROR_MALFORMED
      return (DataSource.bigEndian large.2 8, 16)
    | chunk_size => do
      demand (8 ≤ chunk_size) .ERROR_MALFORMED
      return (chunk_size, 8) : Parsing σ (Nat × Nat))
  demand (chunk_size - headerSize < 2^63) .ERROR_MALFORMED
  onChunkData chunk_type (off64 (offset + headerSize)) (chunk_size - headerSize)
  return off64 (offset + chunk_size)

/-- The loop of `parseChunks` and of `IinfBox::parse`, for so many boxes at most. -/
def parseChunksTo (source : DataSource) (onChunkData : Nat → Int → Nat → Parsing σ Unit)
    (stopOffset : Int) : Nat → Int → Parsing σ Int
  | 0, offset => return offset
  | n + 1, offset => do
    if offset < stopOffset then
      parseChunksTo source onChunkData stopOffset n (← parseChunk source onChunkData offset)
    else return offset

/-- A box takes eight bytes at least, so there are less than `size` of them. -/
def parseChunks (source : DataSource) (onChunkData : Nat → Int → Nat → Parsing σ Unit)
    (offset : Int) (size : Nat) : Parsing σ Unit := do
  let stopOffset := off64 (offset + size)
  let offset ← parseChunksTo source onChunkData stopOffset size offset
  demand (offset = stopOffset) .ERROR_MALFORMED

/-- The header of a box, and where its data is. -/
structure FullBox where
  version : Nat
  flags : Nat
  offset : Int
  size : Nat

def parseFullBoxHeader (source : DataSource) (offset : Int) (size : Nat) : Parsing σ FullBox := do
  demand (4 ≤ size) .ERROR_MALFORMED
  let mVersion ← expect (source.readByte offset)
  let mFlags ← expect (source.getUInt (off64 (offset + 1)) 3)
  return ⟨mVersion, mFlags, off64 (offset + 4), size - 4⟩

/-! ### `pitm` -/

def PitmBox.parse (source : DataSource) (offset : Int) (size : Nat) : Parsing σ Nat := do
  let box ← parseFullBoxHeader source offset size
  let itemIdSize := if box.version = 0 then 2 else 4
  demand (itemIdSize ≤ box.size) .ERROR_MALFORMED
  expect (source.getUIntVar box.offset 4 itemIdSize)

/-! ### `iloc` -/

structure ExtentEntry where
  extentIndex : Nat
  extentOffset : Nat
  extentLength : Nat
  deriving DecidableEq

structure ItemLoc where
  itemId : Nat
  constructionMethod : Nat
  dataReferenceIndex : Nat
  baseOffset : Nat
  extents : List ExtentEntry := []
  deriving DecidableEq

namespace IlocBox

structure State where
  mItemLocs : KeyedVector Nat ItemLoc
  mHasConstructMethod1 : Bool := false

def isSizeFieldValid (offset_size : Nat) : Prop :=
  offset_size = 0 ∨ offset_size = 4 ∨ offset_size = 8

instance (offset_size : Nat) : Decidable (isSizeFieldValid offset_size) :=
  inferInstanceAs (Decidable (_ ∨ _))

/-- How wide the fields of an item are. -/
structure Sizes where
  version : Nat
  offset_size : Nat
  length_size : Nat
  base_offset_size : Nat
  index_size : Nat

def Sizes.itemFieldSize (s : Sizes) : Nat := if s.version < 2 then 2 else 4

/-- A field that may have no bytes, and the offset after it. -/
def field (source : DataSource) (default size : Nat) (offset : Int) : Parsing σ (Nat × Int) :=
  if size ≠ 0 then do
    let x ← expect (source.getUIntVar offset 8 size)
    return (x, off64 (offset + size))
  else return (default, offset)

def parseExtents (source : DataSource) (s : Sizes) (item : ItemLoc) :
    Nat → Int → Parsing State Int
  | 0, offset => return offset
  | n + 1, offset => do
    let (extent_index, offset) ← field source 1 s.index_size offset
    let (extent_offset, offset) ← field source 0 s.offset_size offset
    let (extent_length, offset) ← field source 0 s.length_size offset
    let item := { item with extents := item.extents ++ [⟨extent_index, extent_offset, extent_length⟩] }
    modify fun st => { st with mItemLocs := st.mItemLocs.set item.itemId item }
    parseExtents source s item n offset

def parseConstructionMethod (source : DataSource) (s : Sizes) (offset : Int) :
    Parsing State (Nat × Int) :=
  if s.version = 1 ∨ s.version = 2 then do
    let buf := source.readAt offset 2
    demand (buf.1 ≠ 0) ERROR_IO
    let construction_method := (buf.2 1).toNat % 16
    modify fun st =>
      { st with mHasConstructMethod1 := st.mHasConstructMethod1 || construction_method = 1 }
    return (construction_method, off64 (offset + 2))
  else return (0, offset)

def parseItem (source : DataSource) (s : Sizes) (offset : Int) : Parsing State Int := do
  let item_id ← expect (source.getUIntVar offset 4 s.itemFieldSize)
  let (construction_method, offset) ←
    parseConstructionMethod source s (off64 (offset + s.itemFieldSize))
  let data_reference_index ← expect (source.getUInt offset 2)
  demand (data_reference_index = 0) .ERROR_UNSUPPORTED
  let (base_offset, offset) ← field source 0 s.base_offset_size (off64 (offset + 2))
  let item : ItemLoc := ⟨item_id, construction_method, data_reference_index, base_offset, []⟩
  modify fun st => { st with mItemLocs := st.mItemLocs.set item_id item }
  let extent_count ← expect (source.getUInt offset 2)
  demand (extent_count ≤ 1) .ERROR_UNSUPPORTED
  parseExtents source s item extent_count (off64 (offset + 2))

def parseItems (source : DataSource) (s : Sizes) : Nat → Int → Parsing State Unit
  | 0, _ => return
  | n + 1, offset => do
    let offset ← parseItem source s offset
    parseItems source s n offset

def parse (source : DataSource) (offset : Int) (size : Nat) : Parsing State Unit := do
  let box ← parseFullBoxHeader source offset size
  demand (box.version ≤ 2) .ERROR_MALFORMED
  demand (2 ≤ box.size) .ERROR_MALFORMED
  let offset_size ← expect (source.readByte box.offset)
  let base_offset_size ← expect (source.readByte (off64 (box.offset + 1)))
  let s : Sizes :=
    { version := box.version
      offset_size := offset_size / 16
      length_size := offset_size % 16
      base_offset_size := base_offset_size / 16
      index_size := if box.version = 1 ∨ box.version = 2 then base_offset_size % 16 else 0 }
  demand (isSizeFieldValid s.offset_size ∧ isSizeFieldValid s.length_size ∧
    isSizeFieldValid s.base_offset_size ∧ isSizeFieldValid s.index_size) .ERROR_MALFORMED
  demand (s.itemFieldSize ≤ box.size - 2) .ERROR_MALFORMED
  let item_count ← expect (source.getUIntVar (off64 (box.offset + 2)) 4 s.itemFieldSize)
  parseItems source s item_count (off64 (box.offset + 2 + s.itemFieldSize))

end IlocBox

/-! ### `iref` -/

structure ItemReference where
  type : Nat
  mItemId : Nat
  mRefs : List Nat
  deriving DecidableEq

namespace IrefBox

def parseRefs (source : DataSource) (mRefIdSize : Nat) : Nat → Int → Parsing σ (List Nat)
  | 0, _ => return []
  | n + 1, offset => do
    let refItemId ← expect (source.getUIntVar offset 4 mRefIdSize)
    return refItemId :: (← parseRefs source mRefIdSize n (off64 (offset + mRefIdSize)))

/-- `ItemReference::parse`. -/
def parseReference (source : DataSource) (mRefIdSize type : Nat) (offset : Int) (size : Nat) :
    Parsing σ ItemReference := do
  demand (mRefIdSize + 2 ≤ size) .ERROR_MALFORMED
  let mItemId ← expect (source.getUIntVar offset 4 mRefIdSize)
  let offset := off64 (offset + mRefIdSize)
  let count ← expect (source.getUInt offset 2)
  demand (count * mRefIdSize ≤ size - (mRefIdSize + 2)) .ERROR_MALFORMED
  return ⟨type, mItemId, ← parseRefs source mRefIdSize count (off64 (offset + 2))⟩

def onChunkData (source : DataSource) (mRefIdSize type : Nat) (offset : Int) (size : Nat) :
    Parsing (List ItemReference) Unit := do
  let itemRef ← parseReference source mRefIdSize type offset size
  modify fun mItemRefs => mItemRefs ++ [itemRef]

def parse (source : DataSource) (offset : Int) (size : Nat) :
    Parsing (List ItemReference) Unit := do
  let box ← parseFullBoxHeader source offset size
  let mRefIdSize := if box.version = 0 then 2 else 4
  parseChunks source (onChunkData source mRefIdSize) box.offset box.size

end IrefBox

/-! ### `iprp` -/

structure AssociationEntry where
  itemId : Nat
  essential : Bool
  index : Nat
  deriving DecidableEq

inductive ItemProperty
  | unrecognized
  | ispe (mWidth mHeight : Nat)
  | hvcC (mHVCC : List (BitVec 8))
  | irot (mAngle : Nat)
  | colr (mICCData : Option (List (BitVec 8)))
  deriving DecidableEq

namespace IprpBox

structure State where
  mProperties : List ItemProperty
  mAssociations : List AssociationEntry

def parseIspe (source : DataSource) (offset : Int) (size : Nat) : Parsing σ ItemProperty := do
  let box ← parseFullBoxHeader source offset size
  demand (8 ≤ box.size) .ERROR_MALFORMED
  let mWidth ← expect (source.getUInt box.offset 4)
  let mHeight ← expect (source.getUInt (off64 (box.offset + 4)) 4)
  return .ispe mWidth mHeight

def parseHvcc (source : DataSource) (offset : Int) (size : Nat) : Parsing σ ItemProperty := do
  demand (source.hasMemory size) .NO_MEMORY
  return .hvcC (← expect (source.readBytes offset size))

def parseIrot (source : DataSource) (offset : Int) (size : Nat) : Parsing σ ItemProperty := do
  demand (1 ≤ size) .ERROR_MALFORMED
  let mAngle ← expect (source.getUInt offset 1)
  return .irot (mAngle % 4)

def parseColr (source : DataSource) (offset : Int) (size : Nat) : Parsing σ ItemProperty := do
  demand (4 ≤ size) .ERROR_MALFORMED
  let colour_type ← expect (source.getUInt offset 4)
  if colour_type = FOURCC 'n' 'c' 'l' 'x' then return .colr none
  else
    demand (colour_type = FOURCC 'r' 'I' 'C' 'C' ∨ colour_type = FOURCC 'p' 'r' 'o' 'f')
      .ERROR_MALFORMED
    demand (source.hasMemory (size - 4)) .NO_MEMORY
    let offset := off64 (offset + 4)
    demand ((source.readAt offset (size - 4)).1 = (size - 4 : Nat)) ERROR_IO
    return .colr (some ((List.range (size - 4)).map (source.readAt offset (size - 4)).2))

def parseProperty (source : DataSource) (type : Nat) (offset : Int) (size : Nat) :
    Parsing σ ItemProperty :=
  if type = FOURCC 'h' 'v' 'c' 'C' then parseHvcc source offset size
  else if type = FOURCC 'i' 's' 'p' 'e' then parseIspe source offset size
  else if type = FOURCC 'i' 'r' 'o' 't' then parseIrot source offset size
  else if type = FOURCC 'c' 'o' 'l' 'r' then parseColr source offset size
  else return .unrecognized

/-- `IpcoBox::onChunkData`. -/
def onProperty (source : DataSource) (type : Nat) (offset : Int) (size : Nat) :
    Parsing State Unit := do
  let itemProperty ← parseProperty source type offset size
  modify fun st => { st with mProperties := st.mProperties ++ [itemProperty] }

/-- `IpcoBox::parse`. The index of a property starts at 1. -/
def parseIpco (source : DataSource) (offset : Int) (size : Nat) : Parsing State Unit := do
  modify fun st => { st with mProperties := st.mProperties ++ [.unrecognized] }
  parseChunks source (onProperty source) offset size

/-- The properties of one item, and where the next item is. -/
def parseAssociations (source : DataSource) (propIndexSize itemId : Nat) :
    Nat → Int → Nat → Parsing State (Int × Nat)
  | 0, offset, size => return (offset, size)
  | n + 1, offset, size => do
    demand (propIndexSize ≤ size) .ERROR_MALFORMED
    let propIndex ← expect (source.getUIntVar offset 2 propIndexSize)
    let bitmask := 2^(8 * propIndexSize - 1)
    let entry : AssociationEntry := ⟨itemId, bitmask ≤ propIndex, propIndex % bitmask⟩
    modify fun st => { st with mAssociations := st.mAssociations ++ [entry] }
    parseAssociations source propIndexSize itemId n (off64 (offset + propIndexSize))
      (size - propIndexSize)

def parseEntries (source : DataSource) (box : FullBox) : Nat → Int → Nat → Parsing State Unit
  | 0, _, _ => return
  | n + 1, offset, size => do
    let itemIdSize := if box.version < 1 then 2 else 4
    demand (itemIdSize + 1 ≤ size) .ERROR_MALFORMED
    let itemId ← expect (source.getUIntVar offset 4 itemIdSize)
    let offset := off64 (offset + itemIdSize)
    let associationCount ← expect (source.readByte offset)
    let (offset, size) ← parseAssociations source (if box.flags % 2 = 1 then 2 else 1) itemId
      associationCount (off64 (offset + 1)) (size - itemIdSize - 1)
    parseEntries source box n offset size

/-- `IpmaBox::parse`. -/
def parseIpma (source : DataSource) (offset : Int) (size : Nat) : Parsing State Unit := do
  let box ← parseFullBoxHeader source offset size
  demand (4 ≤ box.size) .ERROR_MALFORMED
  let entryCount ← expect (source.getUInt box.offset 4)
  parseEntries source box entryCount (off64 (box.offset + 4)) (box.size - 4)

def onChunkData (source : DataSource) (type : Nat) (offset : Int) (size : Nat) :
    Parsing State Unit :=
  if type = FOURCC 'i' 'p' 'c' 'o' then parseIpco source offset size
  else if type = FOURCC 'i' 'p' 'm' 'a' then parseIpma source offset size
  else return

def parse (source : DataSource) (offset : Int) (size : Nat) : Parsing State Unit :=
  parseChunks source (onChunkData source) offset size

end IprpBox

/-! ### `iinf` -/

structure ItemInfo where
  itemId : Nat
  itemType : Nat
  hidden : Bool
  deriving DecidableEq

namespace IinfBox

structure State where
  mItemInfos : List ItemInfo
  mFourCCSeen : Finset Nat := ∅

/-- Where the string ends and how much is left behind it, for so many bytes at most. -/
def parseNullTerminatedString (source : DataSource) (stopOffset : Int) :
    Nat → Int → Option (Int × Nat)
  | 0, _ => none
  | n + 1, offset =>
    if offset < stopOffset then
      match source.readByte offset with
      | none => none
      | some 0 => some (off64 (offset + 1), (stopOffset - off64 (offset + 1)).toNat)
      | some _ => parseNullTerminatedString source stopOffset n (off64 (offset + 1))
    else none

/-- A string that has to be there. -/
def skipString (source : DataSource) (offset : Int) (size : Nat) : Parsing σ (Int × Nat) :=
  (parseNullTerminatedString source (off64 (offset + size)) size offset).elim
    (throw .ERROR_MALFORMED) pure

/-- `InfeBox::parse`. -/
def parseInfe (source : DataSource) (offset : Int) (size : Nat) : Parsing σ ItemInfo := do
  let box ← parseFullBoxHeader source offset size
  demand (2 ≤ box.version) .ERROR_UNSUPPORTED
  let itemIdSize := if box.version = 2 then 2 else 4
  demand (itemIdSize + 6 ≤ box.size) .ERROR_MALFORMED
  let item_id ← expect (source.getUIntVar box.offset 4 itemIdSize)
  let offset := off64 (box.offset + itemIdSize)
  let _ ← expect (source.getUInt offset 2)
  let item_type ← expect (source.getUInt (off64 (offset + 2)) 4)
  let (offset, size) ← skipString source (off64 (offset + 6)) (box.size - (itemIdSize + 6))
  if item_type = FOURCC 'm' 'i' 'm' 'e' then
    let (offset, size) ← skipString source offset size
    if 0 < size then let _ ← skipString source offset size
  else if item_type = FOURCC 'u' 'r' 'i' ' ' then
    let _ ← skipString source offset size
  return ⟨item_id, item_type, box.flags % 2 = 1⟩

/-- An item that is not supported is not fatal. -/
def onChunkData (source : DataSource) (type : Nat) (offset : Int) (size : Nat) :
    Parsing State Unit := do
  if type = FOURCC 'i' 'n' 'f' 'e' then
    match ((parseInfe source offset size : Parsing Unit ItemInfo).run.run ()).1 with
    | .ok itemInfo =>
      modify fun st =>
        { mItemInfos := st.mItemInfos ++ [itemInfo]
          mFourCCSeen := insert itemInfo.itemType st.mFourCCSeen }
    | .error err => demand (err = .ERROR_UNSUPPORTED) err

def parse (source : DataSource) (offset : Int) (size : Nat) : Parsing State Unit := do
  let box ← parseFullBoxHeader source offset size
  let entryCountSize := if box.version = 0 then 2 else 4
  demand (entryCountSize ≤ box.size) .ERROR_MALFORMED
  let entry_count ← expect (source.getUIntVar box.offset 4 entryCountSize)
  let stopOffset := off64 (box.offset + box.size)
  let offset ← parseChunksTo source (onChunkData source) stopOffset entry_count
    (off64 (box.offset + entryCountSize))
  demand (offset = stopOffset) .ERROR_MALFORMED

end IinfBox

end MediaFramework.Mp4.Heif
