import MediaFramework.Lib.Blocks
import MediaFramework.Mtp.MtpDataPacket

/-!
# Uploads

`MtpDataPacket::write` with a file: the header and the bytes of an object go to a device in bulk
transfers. Where the file cannot be read, zeros take the place of its bytes, so that the device gets
as many as the header says.
-/

namespace MediaFramework.Mtp

open LittleEndian

/-! ### Files -/

/-- The bytes of a file by their offsets, and how many of them each call of `read` gives for a count,
if it is not an error. The end of the file is a call that gives none. -/
structure Fd where
  bytes : Nat → Byte
  answer : Nat → Nat → Option Nat
  offset : Nat := 0
  calls : Nat := 0

namespace Fd

/-- The next `n` bytes. -/
def next (fd : Fd) (n : Nat) : List Byte := Blocks.segment fd.bytes fd.offset n

@[simp]
theorem length_next (fd : Fd) (n : Nat) : (fd.next n).length = n := by
  rw [next, Blocks.length_segment]

/-- The file after a call that has given `n` bytes. -/
def advance (fd : Fd) (n : Nat) : Fd := { fd with offset := fd.offset + n, calls := fd.calls + 1 }

def read (fd : Fd) (count : Nat) : Option (List Byte) × Fd :=
  match fd.answer fd.calls count with
  | none => (none, fd.advance 0)
  | some n => (some (fd.next (min n count)), fd.advance (min n count))

end Fd

/-- All bytes or none; the end of the file is an error. -/
def readExactBytes (fd : Fd) (count : Nat) : Option (List Byte) × Fd :=
  if _hcount : count = 0 then (some [], fd)
  else
    match fd.read count with
    | (none, fd) => (none, fd)
    | (some bytes, fd) =>
      if _hbytes : bytes.length = 0 then (none, fd)
      else
        match readExactBytes fd (count - bytes.length) with
        | (none, fd) => (none, fd)
        | (some rest, fd) => (some (bytes ++ rest), fd)
termination_by count

/-! ### Transfers -/

def MTP_CONTAINER_LENGTH_OFFSET : Nat := 0

def MTP_CONTAINER_TYPE_OFFSET : Nat := 4

def MTP_CONTAINER_TYPE_DATA : Nat := 2

inductive UrbPacketDivisionMode
  | FIRST_PACKET_ONLY_HEADER
  | FIRST_PACKET_HAS_PAYLOAD
  deriving DecidableEq

/-- The memory of a packet, which is never smaller than it was at first. -/
structure PacketMemory where
  bytes : List Byte
  size : MTP_BUFFER_SIZE ≤ bytes.length

/-- The variables of the loop, and what has been transferred. -/
structure Upload where
  mBuffer : List Byte
  fd : Fd
  processedBytes : Nat := 0
  readError : Bool := false
  transfers : List (List Byte) := []

namespace Upload

/-- The length and the type go to the front of the buffer. -/
def putHeader (containerLength : Nat) (s : Upload) : Upload :=
  let mBuffer := Ring.poke s.mBuffer MTP_CONTAINER_LENGTH_OFFSET (digits 4 containerLength)
  { s with mBuffer := Ring.poke mBuffer MTP_CONTAINER_TYPE_OFFSET (digits 2 MTP_CONTAINER_TYPE_DATA) }

/-- The next `size` bytes of the file go to the buffer, or as many zeros. -/
def putPayload (start size : Nat) (s : Upload) : Upload :=
  match if s.readError then (none, s.fd) else readExactBytes s.fd size with
  | (some bytes, fd) => { s with mBuffer := Ring.poke s.mBuffer start bytes, fd }
  | (none, fd) =>
    { s with mBuffer := Ring.poke s.mBuffer start (List.replicate size 0), fd, readError := true }

/-- What a round puts into the buffer, and how many bytes of it are to be transferred. -/
def prepare (divisionMode : UrbPacketDivisionMode) (maxBulkTransferSize payloadSize : Nat)
    (s : Upload) : Upload × Nat :=
  let headerSent := s.processedBytes ≠ 0
  let (s, bulkTransferSize) :=
    if headerSent then (s, 0)
    else (s.putHeader (payloadSize + MTP_CONTAINER_HEADER_SIZE), MTP_CONTAINER_HEADER_SIZE)
  if headerSent ∨ divisionMode = .FIRST_PACKET_HAS_PAYLOAD then
    let processedPayloadBytes :=
      if headerSent then s.processedBytes - MTP_CONTAINER_HEADER_SIZE else 0
    let maxRead := payloadSize - processedPayloadBytes
    let maxWrite := maxBulkTransferSize - bulkTransferSize
    let bulkTransferPayloadSize := min maxRead maxWrite
    (s.putPayload bulkTransferSize bulkTransferPayloadSize,
      bulkTransferSize + bulkTransferPayloadSize)
  else (s, bulkTransferSize)

/-- The loop, with the result of each transfer. -/
def writeFrom (transfer : Nat → List Byte → Int) (divisionMode : UrbPacketDivisionMode)
    (maxBulkTransferSize payloadSize : Nat) : Nat → Upload → Option (Int × Upload)
  | 0, _ => none
  | rounds + 1, s =>
    if s.processedBytes < payloadSize + MTP_CONTAINER_HEADER_SIZE then
      let (s, bulkTransferSize) := s.prepare divisionMode maxBulkTransferSize payloadSize
      let data := s.mBuffer.take bulkTransferSize
      let result := transfer s.transfers.length data
      let s := { s with transfers := s.transfers ++ [data] }
      if result ≠ bulkTransferSize then some (-1, s)
      else
        writeFrom transfer divisionMode maxBulkTransferSize payloadSize rounds
          { s with processedBytes := s.processedBytes + bulkTransferSize }
    else some (if s.readError then -1 else s.processedBytes, s)

end Upload

/-- The greatest multiple of the packet size that the buffer holds. -/
def maxBulkTransferSize (max_packet_size : Nat) : Nat :=
  MTP_BUFFER_SIZE - MTP_BUFFER_SIZE % max_packet_size

/-- The result, and the transfers. With too few rounds there is none. -/
def write (transfer : Nat → List Byte → Int) (max_packet_size : Int)
    (divisionMode : UrbPacketDivisionMode) (memory : PacketMemory) (fd : Fd) (payloadSize rounds : Nat) :
    Option (Int × List (List Byte)) :=
  if max_packet_size ≤ 0 then some (-1, [])
  else
    (Upload.writeFrom transfer divisionMode (maxBulkTransferSize max_packet_size.toNat) payloadSize
      rounds { mBuffer := memory.bytes, fd }).map fun r => (r.1, r.2.transfers)

end MediaFramework.Mtp
