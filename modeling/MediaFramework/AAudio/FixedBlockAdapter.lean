import MediaFramework.Lib.Ring

/-!
# Fixed-block adapters

`FixedBlockWriter` and `FixedBlockReader` stand between a client that uses buffers of any size and a
processor that uses blocks of one size. Bytes that do not make a whole block are stored until the
next call.
-/

namespace MediaFramework.AAudio

abbrev Byte := BitVec 8

/-- An adapter that is open. -/
structure FixedBlockAdapter where
  mSize : Nat
  mStorage : List Byte
  mPosition : Nat
  pos : 0 < mSize

/-- The new storage holds what its memory held before. -/
def FixedBlockAdapter.openWith (bytesPerFixedBlock : Nat) (pos : 0 < bytesPerFixedBlock)
    (memory : Nat → Byte) : FixedBlockAdapter where
  mSize := bytesPerFixedBlock
  mStorage := (List.range bytesPerFixedBlock).map memory
  mPosition := 0
  pos

/-! ### Writing -/

/-- The result for the last of the blocks that the processor has been given. -/
abbrev FixedBlockProcessor := List (List Byte) → Int

/-- A writer, and the blocks that its processor has been given. -/
structure FixedBlockWriter extends FixedBlockAdapter where
  blocks : List (List Byte) := []

namespace FixedBlockWriter

def openWith (bytesPerFixedBlock : Nat) (pos : 0 < bytesPerFixedBlock) (memory : Nat → Byte) :
    FixedBlockWriter where
  toFixedBlockAdapter := .openWith bytesPerFixedBlock pos memory

def writeToStorage (w : FixedBlockWriter) (buffer : List Byte) : Nat × FixedBlockWriter :=
  let roomAvailable := w.mSize - w.mPosition
  let bytesToStore := min buffer.length roomAvailable
  (bytesToStore,
    { w with
      mStorage := Ring.poke w.mStorage w.mPosition (buffer.take bytesToStore)
      mPosition := w.mPosition + bytesToStore })

def onProcessFixedBlock (processor : FixedBlockProcessor) (w : FixedBlockWriter)
    (block : List Byte) : Int × FixedBlockWriter :=
  (processor (w.blocks ++ [block]), { w with blocks := w.blocks ++ [block] })

/-- Data that is in the storage is added to, and goes out once the storage is full. -/
def addToStorage (processor : FixedBlockProcessor) (w : FixedBlockWriter) (buffer : List Byte) :
    Int × List Byte × FixedBlockWriter :=
  if 0 < w.mPosition then
    let (bytesWritten, w) := w.writeToStorage buffer
    let buffer := buffer.drop bytesWritten
    if w.mPosition = w.mSize then
      let (result, w) := w.onProcessFixedBlock processor (w.mStorage.take w.mSize)
      (result, buffer, { w with mPosition := 0 })
    else (0, buffer, w)
  else (0, buffer, w)

/-- Whole blocks go out directly as long as there is more than one. -/
def writeThrough (processor : FixedBlockProcessor) (result : Int) (buffer : List Byte)
    (w : FixedBlockWriter) : Int × List Byte × FixedBlockWriter :=
  if _hmore : w.mSize < buffer.length ∧ result = 0 then
    writeThrough processor (w.onProcessFixedBlock processor (buffer.take w.mSize)).1
      (buffer.drop w.mSize) (w.onProcessFixedBlock processor (buffer.take w.mSize)).2
  else (result, buffer, w)
termination_by buffer.length
decreasing_by
  have hpos := w.pos
  rw [List.length_drop]
  omega

def processVariableBlock (processor : FixedBlockProcessor) (w : FixedBlockWriter)
    (buffer : List Byte) : Int × FixedBlockWriter :=
  let (result, buffer, w) := w.addToStorage processor buffer
  let (result, buffer, w) := writeThrough processor result buffer w
  (result, if 0 < buffer.length then (w.writeToStorage buffer).2 else w)

end FixedBlockWriter

/-! ### Reading -/

/-- The bytes that a processor produces, by its calls, and its results. -/
structure FixedBlockSource where
  bytes : Nat → Nat → Byte
  result : Nat → Int

def FixedBlockSource.block (source : FixedBlockSource) (call numBytes : Nat) : List Byte :=
  (List.range numBytes).map (source.bytes call)

/-- A reader, and the blocks that its processor has produced. -/
structure FixedBlockReader extends FixedBlockAdapter where
  blocks : List (List Byte) := []

namespace FixedBlockReader

/-- No data is in the storage at first. -/
def openWith (bytesPerFixedBlock : Nat) (pos : 0 < bytesPerFixedBlock) (memory : Nat → Byte) :
    FixedBlockReader where
  toFixedBlockAdapter :=
    { FixedBlockAdapter.openWith bytesPerFixedBlock pos memory with mPosition := bytesPerFixedBlock }

def readFromStorage (r : FixedBlockReader) (numBytes : Nat) : Nat × List Byte × FixedBlockReader :=
  let dataAvailable := r.mSize - r.mPosition
  let bytesToRead := min numBytes dataAvailable
  (bytesToRead, Ring.slice r.mStorage r.mPosition bytesToRead,
    { r with mPosition := r.mPosition + bytesToRead })

def onProcessFixedBlock (source : FixedBlockSource) (r : FixedBlockReader) (numBytes : Nat) :
    Int × List Byte × FixedBlockReader :=
  (source.result r.blocks.length, source.block r.blocks.length numBytes,
    { r with blocks := r.blocks ++ [source.block r.blocks.length numBytes] })

/-- The loop, with what it has written to the buffer. -/
def readOn (source : FixedBlockSource) (result : Int) (buffer : List Byte) (bytesLeft : Nat)
    (r : FixedBlockReader) : Int × List Byte × FixedBlockReader :=
  if _hmore : 0 < bytesLeft ∧ result = 0 then
    if _hstored : r.mPosition < r.mSize then
      readOn source result (buffer ++ (r.readFromStorage bytesLeft).2.1)
        (bytesLeft - (r.readFromStorage bytesLeft).1) (r.readFromStorage bytesLeft).2.2
    else if _hwhole : r.mSize ≤ bytesLeft then
      readOn source (r.onProcessFixedBlock source r.mSize).1
        (buffer ++ (r.onProcessFixedBlock source r.mSize).2.1) (bytesLeft - r.mSize)
        (r.onProcessFixedBlock source r.mSize).2.2
    else
      readOn source (r.onProcessFixedBlock source r.mSize).1 buffer bytesLeft
        { (r.onProcessFixedBlock source r.mSize).2.2 with
          mStorage := (r.onProcessFixedBlock source r.mSize).2.1
          mPosition := 0 }
  else (result, buffer, r)
termination_by (bytesLeft, if r.mPosition < r.mSize then 0 else 1)
decreasing_by
  · left
    show bytesLeft - min bytesLeft (r.mSize - r.mPosition) < bytesLeft
    omega
  · left
    have hpos := r.pos
    omega
  · right
    show (if 0 < r.mSize then 0 else 1) < _
    rw [if_pos r.pos, if_neg _hstored]
    exact Nat.one_pos

/-- The result, and what is in the buffer. -/
def processVariableBlock (source : FixedBlockSource) (r : FixedBlockReader) (numBytes : Nat) :
    Int × List Byte × FixedBlockReader :=
  readOn source 0 [] numBytes r

end FixedBlockReader

end MediaFramework.AAudio
