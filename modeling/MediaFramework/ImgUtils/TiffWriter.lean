import MediaFramework.Lib.Endian
import MediaFramework.Lib.KeyedVector

/-!
# TIFF writers

The header of a DNG file: a chain of directories (IFDs) of entries, some of which hold directories, each
written at an offset that is known from the sizes of all that is in front of it. An output takes all
bytes that it is given.
-/

namespace MediaFramework.ImgUtils

abbrev Byte := BitVec 8

inductive Endianness
  | UNDEFINED_ENDIAN
  | BIG
  | LITTLE
  deriving DecidableEq, Repr

open Endianness

inductive TagType
  | UNKNOWN_TAGTYPE
  | BYTE
  | ASCII
  | SHORT
  | LONG
  | RATIONAL
  | SBYTE
  | UNDEFINED
  | SSHORT
  | SLONG
  | SRATIONAL
  | FLOAT
  | DOUBLE
  deriving DecidableEq, Repr

open TagType

/-- The value of the enumerator. -/
def TagType.code : TagType → Nat
  | UNKNOWN_TAGTYPE => 0
  | BYTE => 1
  | ASCII => 2
  | SHORT => 3
  | LONG => 4
  | RATIONAL => 5
  | SBYTE => 6
  | UNDEFINED => 7
  | SSHORT => 8
  | SLONG => 9
  | SRATIONAL => 10
  | FLOAT => 11
  | DOUBLE => 12

inductive Status
  | OK
  | BAD_VALUE
  | BAD_INDEX
  | BAD_TYPE
  | NAME_NOT_FOUND
  deriving DecidableEq, Repr

open Status

/-! ## Constants and macros -/

def MAX_IFD_ENTRIES : Nat := 65535
def FILE_HEADER_SIZE : Nat := 8
def OFFSET_SIZE : Nat := 4
def TIFF_FILE_MARKER : Nat := 42
def BIG_ENDIAN_MARKER : Nat := 0x4D4D
def LITTLE_ENDIAN_MARKER : Nat := 0x4949

def TAG_IMAGEWIDTH : Nat := 0x0100
def TAG_IMAGELENGTH : Nat := 0x0101
def TAG_BITSPERSAMPLE : Nat := 0x0102
def TAG_STRIPOFFSETS : Nat := 0x0111
def TAG_SAMPLESPERPIXEL : Nat := 0x0115
def TAG_ROWSPERSTRIP : Nat := 0x0116
def TAG_STRIPBYTECOUNTS : Nat := 0x0117
def TAG_SUBIFDS : Nat := 0x014A
def TAG_GPSINFO : Nat := 0x8825

/-- `BYTES_TILL_WORD` -/
def bytesTillWord (index : Nat) : Nat := (4 - index % 4) % 4

/-- `WORD_ALIGN` of a `uint32_t` -/
def wordAlign (count : Nat) : Nat := (count + bytesTillWord count) % 2^32

def calculateIfdSize (numberOfEntries : Nat) : Nat := (2 + 4 + 12 * numberOfEntries) % 2^32

/-! ## Outputs -/

structure EndianOutput where
  written : List Byte := []
  mOffset : Nat := 0
  mEndian : Endianness

namespace EndianOutput

def put (bytes : List Byte) (out : EndianOutput) : EndianOutput :=
  { out with written := out.written ++ bytes, mOffset := (out.mOffset + bytes.length) % 2^32 }

/-- Writes elements of a type of some size. Bytes are written in any byte order, larger elements need
one. -/
def write (size : Nat) (buf : List Nat) (out : EndianOutput) : Option EndianOutput :=
  if size = 1 then some (out.put (Endian.encodeAll false 1 buf))
  else
    match out.mEndian with
    | BIG => some (out.put (Endian.encodeAll true size buf))
    | LITTLE => some (out.put (Endian.encodeAll false size buf))
    | UNDEFINED_ENDIAN => none

/-- `ZERO_TILL_WORD` -/
def zeroTillWord (index : Nat) (out : EndianOutput) : Option EndianOutput :=
  if 0 < bytesTillWord index then out.write 1 (List.replicate (bytesTillWord index) 0) else some out

end EndianOutput

/-! ## Entries -/

/-- A `TiffEntryImpl` of an element type of `size` bytes. -/
structure Values where
  mType : TagType
  mCount : Nat
  mEnd : Endianness
  size : Nat
  mData : List Nat
  deriving DecidableEq, Repr

namespace Values

variable (v : Values)

def isRational : Bool := v.mType = RATIONAL ∨ v.mType = SRATIONAL

/-- The number of elements: each rational is represented by two. -/
def elements : Nat := if v.isRational then v.mCount * 2 % 2^32 else v.mCount

def getActualSize : Nat :=
  let total := v.size * v.mCount % 2^32
  if v.isRational then total * 2 % 2^32 else total

def writeTagInfo (tag offset : Nat) (out : EndianOutput) : Option EndianOutput := do
  let out ← out.write 2 [tag]
  let out ← out.write 2 [v.mType.code]
  let out ← out.write 4 [v.mCount]
  if OFFSET_SIZE < v.getActualSize then out.write 4 [offset]
  else
    let out ← out.write v.size (v.mData.take v.elements)
    out.zeroTillWord v.getActualSize

def writeData (out : EndianOutput) : Option EndianOutput := do
  let out' ← EndianOutput.write v.size (v.mData.take v.elements)
    { out with mEndian := if v.mEnd = UNDEFINED_ENDIAN then out.mEndian else v.mEnd }
  EndianOutput.zeroTillWord (v.size * v.elements) { out' with mEndian := out.mEndian }

/-- The data as elements of type `uint32_t`. -/
def getLongs : Option (List Nat) :=
  if (v.mType = LONG ∨ v.mType = RATIONAL) ∧ v.size = 4 then some v.mData else none

/-- The data as elements of type `uint16_t`. -/
def getShorts : Option (List Nat) := if v.mType = SHORT ∧ v.size = 2 then some v.mData else none

end Values

/-- An IFD is known by its identifier. -/
inductive TiffEntry
  | values (v : Values)
  | ifds (mType : TagType) (mCount : Nat) (mData : List Nat)
  deriving DecidableEq, Repr

namespace TiffEntry

-- `getSize` and `writeData` of the IFDs that an entry can hold
variable (ifdSize : Nat → Nat) (writeIfd : Nat → Nat → EndianOutput → Option EndianOutput)

def getActualSize : TiffEntry → Nat
  | values v => v.getActualSize
  | ifds _ _ mData => mData.foldl (fun total ifd => (total + ifdSize ifd) % 2^32) 0

def getSize (entry : TiffEntry) : Nat :=
  let total := wordAlign (entry.getActualSize ifdSize)
  if total ≤ OFFSET_SIZE then 0 else total

def writeTagInfo (tag offset : Nat) (out : EndianOutput) : TiffEntry → Option EndianOutput
  | values v => v.writeTagInfo tag offset out
  | ifds mType mCount _ => do
    let out ← out.write 2 [tag]
    let out ← out.write 2 [mType.code]
    let out ← out.write 4 [mCount]
    out.write 4 [offset]

def writeIfds : List Nat → Nat → EndianOutput → Option EndianOutput
  | [], _, out => some out
  | ifd :: rest, offset, out => do
    let out ← writeIfd ifd offset out
    writeIfds rest ((offset + ifdSize ifd) % 2^32) out

def writeData (offset : Nat) (out : EndianOutput) : TiffEntry → Option EndianOutput
  | values v => v.writeData out
  | ifds _ mCount mData => writeIfds ifdSize writeIfd (mData.take mCount) offset out

def getLongs : TiffEntry → Option (List Nat)
  | values v => v.getLongs
  | ifds .. => none

def getShorts : TiffEntry → Option (List Nat)
  | values v => v.getShorts
  | ifds .. => none

def getCount : TiffEntry → Nat
  | values v => v.mCount
  | ifds _ mCount _ => mCount

/-- The first elements, of which none is read if there is none to read. -/
def takeLongs (count : Nat) (entry : TiffEntry) : Option (List Nat) :=
  if count = 0 then some [] else entry.getLongs.map (·.take count)

end TiffEntry

/-! ## Directories -/

structure TiffIfd where
  /-- Keyed by tag. -/
  mEntries : KeyedVector Nat TiffEntry := .empty
  mStripOffsetsInitialized : Bool := false

namespace TiffIfd

variable (ifd : TiffIfd)

def addEntry (tag : Nat) (entry : TiffEntry) : Status × TiffIfd :=
  if MAX_IFD_ENTRIES ≤ ifd.mEntries.size then (BAD_INDEX, ifd)
  else (OK, { ifd with mEntries := ifd.mEntries.set tag entry })

def getEntry (tag : Nat) : Option TiffEntry := ifd.mEntries.find? tag

section

variable (ifdSize : Nat → Nat) (writeIfd : Nat → Nat → EndianOutput → Option EndianOutput)

/-- `BAD_OFFSET` is zero. -/
def checkAndGetOffset (offset : Nat) : Nat :=
  let size := ifd.mEntries.size
  if MAX_IFD_ENTRIES < size then 0
  else if size = 0 then 0
  else if offset = 0 then 0
  else (offset + wordAlign (calculateIfdSize size)) % 2^32

def sizeOfValues (entries : List (Nat × TiffEntry)) (total : Nat) : Nat :=
  entries.foldl (fun total entry => (total + entry.2.getSize ifdSize) % 2^32) total

def getSize : Nat :=
  sizeOfValues ifdSize ifd.mEntries.entries (wordAlign (calculateIfdSize ifd.mEntries.size))

def writeTagInfos : List (Nat × TiffEntry) → Nat → EndianOutput → Option EndianOutput
  | [], _, out => some out
  | (tag, entry) :: entries, valueOffset, out => do
    let out ← entry.writeTagInfo tag valueOffset out
    writeTagInfos entries ((valueOffset + entry.getSize ifdSize) % 2^32) out

/-- Only values that are too large to fit in the entry are written. -/
def writeValue (entry : TiffEntry) (out : EndianOutput) : Option EndianOutput :=
  if OFFSET_SIZE < entry.getSize ifdSize then entry.writeData ifdSize writeIfd out.mOffset out
  else some out

def writeValues : List (Nat × TiffEntry) → EndianOutput → Option EndianOutput
  | [], out => some out
  | (_, entry) :: entries, out => do
    let out ← writeValue ifdSize writeIfd entry out
    writeValues entries out

def writeData (hasNext : Bool) (offset : Nat) (out : EndianOutput) : Option EndianOutput :=
  let valueOffset := ifd.checkAndGetOffset offset
  if valueOffset = 0 then none
  else do
    let size := ifd.mEntries.size
    let out ← out.write 2 [size % 2^16]
    let out ← writeTagInfos ifdSize ifd.mEntries.entries valueOffset out
    let out ← out.write 4 [if hasNext then (offset + ifd.getSize ifdSize) % 2^32 else 0]
    let out ← out.zeroTillWord (calculateIfdSize size)
    writeValues ifdSize writeIfd ifd.mEntries.entries out

end

/-- An entry of type `LONG`. -/
def longs (data : List Nat) : TiffEntry := .values ⟨LONG, data.length % 2^32, UNDEFINED_ENDIAN, 4, data⟩

/-- The source reads the first element of an entry that it takes to be of some type, and divides by
the length of a row: `none` where it may not. -/
def validateAndSetStripTags : Option (Status × TiffIfd) :=
  match ifd.getEntry TAG_IMAGEWIDTH, ifd.getEntry TAG_IMAGELENGTH, ifd.getEntry TAG_SAMPLESPERPIXEL,
    ifd.getEntry TAG_BITSPERSAMPLE with
  | some widthEntry, some heightEntry, some samplesEntry, some bitsEntry => do
    let width ← (← widthEntry.getLongs)[0]?
    let height ← (← heightEntry.getLongs)[0]?
    let bitsPerSample ← (← bitsEntry.getShorts)[0]?
    let samplesPerPixel ← (← samplesEntry.getShorts)[0]?
    if bitsPerSample % 8 ≠ 0 then some (BAD_VALUE, ifd)
    else
      let bytesPerSample := bitsPerSample / 8
      let rowLengthBytes := bytesPerSample * samplesPerPixel * width % 2^32
      if rowLengthBytes = 0 then none
      else
        let rowsPerChunk := max 1 (2^13 / rowLengthBytes)
        let actualChunkSize := rowLengthBytes * rowsPerChunk % 2^32
        let lastChunkRows := height % rowsPerChunk
        let lastChunkSize := lastChunkRows * rowLengthBytes % 2^32
        if 65536 < actualChunkSize then some (BAD_VALUE, ifd)
        else
          let byteCounts := List.replicate (height / rowsPerChunk) actualChunkSize
            ++ if 0 < lastChunkRows then [lastChunkSize] else []
          let r₁ := ifd.addEntry TAG_STRIPBYTECOUNTS (longs byteCounts)
          if r₁.1 ≠ OK then some (BAD_VALUE, r₁.2)
          else
            let r₂ := r₁.2.addEntry TAG_ROWSPERSTRIP (longs [rowsPerChunk])
            if r₂.1 ≠ OK then some (BAD_VALUE, r₂.2)
            else
              let r₃ := r₂.2.addEntry TAG_STRIPOFFSETS (longs (List.replicate byteCounts.length 0))
              if r₃.1 ≠ OK then some (BAD_VALUE, r₃.2)
              else some (OK, { r₃.2 with mStripOffsetsInitialized := true })
  | _, _, _, _ => some (BAD_VALUE, ifd)

def uninitializedOffsets : Bool := ifd.mStripOffsetsInitialized

/-- The offsets of strips that follow each other. -/
def stripOffsets : List Nat → Nat → List Nat
  | [], _ => []
  | byteCount :: byteCounts, offset => offset :: stripOffsets byteCounts ((offset + byteCount) % 2^32)

def setStripOffset (offset : Nat) : Option (Status × TiffIfd) :=
  match ifd.getEntry TAG_STRIPOFFSETS, ifd.getEntry TAG_STRIPBYTECOUNTS with
  | some oldOffsets, some stripByteCounts =>
    if oldOffsets.getCount ≠ stripByteCounts.getCount then some (BAD_VALUE, ifd)
    else do
      let byteCounts ← stripByteCounts.takeLongs oldOffsets.getCount
      let r := ifd.addEntry TAG_STRIPOFFSETS (longs (stripOffsets byteCounts offset))
      if r.1 ≠ OK then some (BAD_VALUE, ifd) else some (OK, r.2)
  | _, _ => some (BAD_VALUE, ifd)

/-- Without byte counts, `BAD_VALUE` is returned as a size. -/
def getStripSize : Option Nat :=
  match ifd.getEntry TAG_STRIPBYTECOUNTS with
  | none => some (2^32 - 22)
  | some stripByteCounts => do
    let byteCounts ← stripByteCounts.takeLongs stripByteCounts.getCount
    some (byteCounts.foldl (fun total n => (total + n) % 2^32) 0)

end TiffIfd

/-! ## Writers -/

structure TagDefinition where
  defaultType : TagType
  fixedCount : Nat
  fixedEndian : Endianness
  deriving DecidableEq, Repr

inductive SubIfdType
  | SUBIFD
  | GPSINFO
  deriving DecidableEq, Repr

def SubIfdType.tag : SubIfdType → Nat
  | SUBIFD => TAG_SUBIFDS
  | GPSINFO => TAG_GPSINFO

structure TiffWriter where
  mTagMaps : List (KeyedVector Nat TagDefinition)
  /-- The first IFD and those that are chained to it. -/
  mIfd : List Nat := []
  mNamedIfds : KeyedVector Nat TiffIfd := .empty

structure StripSource where
  getIfd : Nat
  image : Nat → Byte

def StripSource.writeToStream (source : StripSource) (out : EndianOutput) (count : Nat) : EndianOutput :=
  out.put ((List.range count).map source.image)

namespace TiffWriter

variable (w : TiffWriter)

def lookupDefinition (tag : Nat) : Option TagDefinition := w.mTagMaps.findSome? (·.find? tag)

def addEntry (tag : Nat) (entry : TiffEntry) (ifd : Nat) : Status × TiffWriter :=
  if w.lookupDefinition tag = none then (BAD_INDEX, w)
  else
    match w.mNamedIfds.find? ifd with
    | none => (NAME_NOT_FOUND, w)
    | some selectedIfd =>
      let r := selectedIfd.addEntry tag entry
      (r.1, { w with mNamedIfds := w.mNamedIfds.set ifd r.2 })

def addStrip (ifd : Nat) : Option (Status × TiffWriter) :=
  match w.mNamedIfds.find? ifd with
  | none => some (BAD_VALUE, w)
  | some selected =>
    selected.validateAndSetStripTags.map fun r =>
      (r.1, { w with mNamedIfds := w.mNamedIfds.set ifd r.2 })

def addIfd (ifd : Nat) : Status × TiffWriter :=
  if (w.mNamedIfds.find? ifd).isSome then (BAD_VALUE, w)
  else (OK, { w with mIfd := w.mIfd ++ [ifd], mNamedIfds := w.mNamedIfds.set ifd {} })

/-- An entry for IFDs, whose type must be `LONG`. -/
def buildIfdEntry (tag : Nat) (data : List Nat) : Except Status TiffEntry :=
  match w.lookupDefinition tag with
  | none => .error BAD_INDEX
  | some definition =>
    if 0 < definition.fixedCount ∧ definition.fixedCount ≠ data.length then .error BAD_VALUE
    else if definition.defaultType ≠ LONG then .error BAD_TYPE
    else .ok (.ifds definition.defaultType data.length data)

/-- The entry of a parent with one more IFD. An entry of plain values that is read as IFDs is
undefined. -/
def buildSubIfds (parent : TiffIfd) (ifd : Nat) (type : SubIfdType) : Option (Except Status TiffEntry) :=
  match parent.getEntry type.tag with
  | none => some (w.buildIfdEntry type.tag [ifd])
  | some subIfds =>
    if type = .GPSINFO then some (.error BAD_VALUE)
    else
      match subIfds with
      | .values _ => none
      | .ifds _ mCount mData => some (w.buildIfdEntry type.tag (mData.take mCount ++ [ifd]))

def addSubIfd (parentIfd ifd : Nat) (type : SubIfdType) : Option (Status × TiffWriter) :=
  if (w.mNamedIfds.find? ifd).isSome then some (BAD_VALUE, w)
  else
    match w.mNamedIfds.find? parentIfd with
    | none => some (BAD_VALUE, w)
    | some parent =>
      (w.buildSubIfds parent ifd type).map fun built =>
        match built with
        | .error _ => (BAD_VALUE, w)
        | .ok entry =>
          let r := parent.addEntry type.tag entry
          if r.1 ≠ OK then (BAD_VALUE, w)
          else (OK, { w with mNamedIfds := (w.mNamedIfds.set ifd {}).set parentIfd r.2 })

/-! ### Writing -/

/-- `TiffIfd::getSize` of a named IFD. What one holds has been made later, so that the number of all
IFDs is `fuel` enough. -/
def ifdSize : Nat → Nat → Nat
  | 0, _ => 0
  | fuel + 1, ifd => (w.mNamedIfds.find? ifd).elim 0 (·.getSize (ifdSize fuel))

/-- `TiffIfd::writeData` of a named IFD -/
def writeIfd : Nat → Bool → Nat → Nat → EndianOutput → Option EndianOutput
  | 0, _, _, _, _ => none
  | fuel + 1, hasNext, ifd, offset, out => (w.mNamedIfds.find? ifd).bind fun ifd =>
    ifd.writeData (w.ifdSize fuel) (writeIfd fuel false) hasNext offset out

/-- The size of a named IFD. -/
def getSize (ifd : Nat) : Nat := w.ifdSize w.mNamedIfds.size ifd

def getTotalSize : Nat :=
  w.mIfd.foldl (fun totalSize ifd => (totalSize + w.getSize ifd) % 2^32) FILE_HEADER_SIZE

def writeFileHeader (out : EndianOutput) : Option EndianOutput := do
  let out ← out.write 2 [if out.mEndian = BIG then BIG_ENDIAN_MARKER else LITTLE_ENDIAN_MARKER]
  let out ← out.write 2 [TIFF_FILE_MARKER]
  out.write 4 [FILE_HEADER_SIZE]

def writeChain : List Nat → Nat → EndianOutput → Option EndianOutput
  | [], _, out => some out
  | ifd :: ifds, offset, out => do
    let out ← w.writeIfd w.mNamedIfds.size (!ifds.isEmpty) ifd offset out
    writeChain ifds ((offset + w.getSize ifd) % 2^32) out

/-- `none`: a status other than `OK`, here always `BAD_VALUE`. -/
def write (endian : Endianness) : Option EndianOutput :=
  if w.mIfd = [] then none
  else do
    let out ← writeFileHeader { mEndian := endian }
    w.writeChain w.mIfd FILE_HEADER_SIZE out

/-- Offsets for the strips of the IFDs that have been prepared, in the order of the identifiers. The
result is the writer, the end of the strips, and the identifiers. -/
def setStripOffsets : List Nat → TiffWriter → Nat → Option (TiffWriter × List Nat)
  | [], w, _ => some (w, [])
  | key :: keys, w, totalSize => do
    let ifd ← w.mNamedIfds.find? key
    if ifd.uninitializedOffsets then
      let stripSize ← ifd.getStripSize
      let r ← ifd.setStripOffset totalSize
      if r.1 ≠ OK then none
      else
        let (w, prepared) ← setStripOffsets keys { w with mNamedIfds := w.mNamedIfds.set key r.2 }
          (wordAlign ((totalSize + stripSize) % 2^32))
        some (w, key :: prepared)
    else setStripOffsets keys w totalSize

/-- The loop over the prepared IFDs. It takes the IFD at the position that is the identifier, and the
source at the position of the loop. -/
def writeStrips (sources : List StripSource) : List Nat → Nat → EndianOutput → Option EndianOutput
  | [], _, out => some out
  | ifdKey :: keys, i, out => do
    let ifd ← w.mNamedIfds.valueAt ifdKey
    let sizeToWrite ← ifd.getStripSize
    if sources.any (·.getIfd = ifdKey) then
      let source ← sources[i]?
      let out ← (source.writeToStream out sizeToWrite).zeroTillWord sizeToWrite
      writeStrips sources keys (i + 1) out
    else none

/-- `none`: a status other than `OK`, or undefined. -/
def writeSources (sources : List StripSource) (endian : Endianness) :
    Option (EndianOutput × TiffWriter) :=
  if w.mIfd = [] then none
  else do
    let keys := w.mNamedIfds.entries.map Prod.fst
    let (w, prepared) ← setStripOffsets keys w w.getTotalSize
    if prepared.length ≠ sources.length then none
    else
      let out ← writeFileHeader { mEndian := endian }
      let out ← w.writeChain w.mIfd FILE_HEADER_SIZE out
      let out ← w.writeStrips sources prepared 0 out
      some (out, w)

end TiffWriter

end MediaFramework.ImgUtils
