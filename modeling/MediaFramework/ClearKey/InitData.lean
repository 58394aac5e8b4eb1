import MediaFramework.Foundation.Base64
import MediaFramework.Lib.Blocks
import MediaFramework.Lib.Endian

/-!
# ClearKey init data

`drm/mediadrm/plugins/clearkey/hidl/InitDataParser.cpp` with `common/ClearKeyUUID.cpp`, and what
stands in front of the parser and behind its request: `Base64.cpp` and
`JsonWebKey::decodeBase64String`. Sizes have 64 bits.
-/

namespace MediaFramework.ClearKey

abbrev Byte := BitVec 8

inductive Status
  | ok | errorDrmCannotHandle
  deriving DecidableEq

inductive KeyType
  | offline | streaming | release
  deriving DecidableEq

/-! ### Base64

`encode6Bit`, `encodeBase64`, `encodeBase64Url` and the loop of `decodeBase64` are those of
`media/libstagefright/foundation/base64.cpp`. -/

def encodeBase64Url (data : List Byte) : List Char := Foundation.Base64.encodeBase64Url data

/-- The memory of the new buffer is not initialised. A null pointer is `none`. -/
def decodeBase64 (memory : (n : Nat) → Vector Byte n) (s : List Char) : Option (List Byte) :=
  if s.length % 4 ≠ 0 then none
  else
    let padding := Foundation.Base64.countPadding s
    let outLen := Foundation.Base64.outLen s
    let buffer := (memory outLen).toList
    match Foundation.Base64.decodeFrom s.length padding outLen s 0 0 ⟨buffer, 0⟩ with
    | .error _ => none
    | .ok o => some o.out

/-- `none` stands for `false`. -/
def decodeBase64String (memory : (n : Nat) → Vector Byte n) (encodedText : List Char) :
    Option (List Byte) :=
  if '=' ∈ encodedText then none
  else
    let remainder := encodedText.length % 4
    let paddedText :=
      if remainder > 0 then encodedText ++ List.replicate (4 - remainder) '=' else encodedText
    decodeBase64 memory paddedText

/-! ### System ids -/

def kCommonPsshBoxUUID : List Byte :=
  [0x10, 0x77, 0xEF, 0xEC, 0xC0, 0xB2, 0x4D, 0x02, 0xAC, 0xE3, 0x3C, 0x1E, 0x52, 0xE2, 0xFB, 0x4B]

def kClearKeyUUID : List Byte :=
  [0xE2, 0x71, 0x9D, 0x58, 0xA9, 0x85, 0xB3, 0xC9, 0x78, 0x1A, 0xB0, 0x30, 0xAF, 0x78, 0xD3, 0x0E]

def isClearKeyUUID (uuid : List Byte) : Bool := uuid == kCommonPsshBoxUUID || uuid == kClearKeyUUID

/-! ### The parser -/

/-- A `std::vector<uint8_t>`. -/
structure ByteVector where
  bytes : List Byte
  size_lt : bytes.length < 2 ^ 64

def ByteVector.size (v : ByteVector) : Nat := v.bytes.length

/-- The memory from the first byte of a vector on. `after` is what stands behind the last one. -/
def ByteVector.memory (v : ByteVector) (after : Nat → Byte) (i : Nat) : Byte :=
  v.bytes.getD i (after i)

def kKeyIdSize : Nat := 16
def kSystemIdSize : Nat := 16

def psshIdentifier : List Byte := [0x70, 0x73, 0x73, 0x68]
def psshVersion1 : List Byte := [1, 0, 0, 0]

/-- What is returned, the key ids that have been pushed, as positions in the init data, and the
positions that have been read. -/
structure Parsed where
  status : Status
  keyIds : List Nat
  reads : List Nat
  deriving DecidableEq

/-- A field of `n` bytes is compared in place. `memcmp` reads them all. -/
def validate (memory : Nat → Byte) (readPosition n : Nat) (valid : List Byte → Bool)
    (next : Nat → Parsed) : Parsed :=
  let reads := List.range' readPosition n
  if valid (Blocks.segment memory readPosition n) then
    let res := next (readPosition + n)
    { res with reads := reads ++ res.reads }
  else ⟨.errorDrmCannotHandle, [], reads⟩

/-- From the key id count on. -/
def parseKeyIds (initData : ByteVector) (memory : Nat → Byte) (readPosition : Nat) : Parsed :=
  let reads := List.range' readPosition 4
  let keyIdCount := Endian.decode true (Blocks.segment memory readPosition 4)
  let readPosition := readPosition + 4
  if readPosition + keyIdCount * kKeyIdSize ≠ (initData.size + 2 ^ 64 - 4) % 2 ^ 64 then
    ⟨.errorDrmCannotHandle, [], reads⟩
  else ⟨.ok, (List.range keyIdCount).map fun i => readPosition + i * kKeyIdSize, reads⟩

def parsePssh (initData : ByteVector) (after : Nat → Byte) : Parsed :=
  let memory := initData.memory after
  let expectedSize := Endian.encode true 4 (initData.size % 2 ^ 32)
  validate memory 0 4 (· == expectedSize) fun readPosition =>
  validate memory readPosition 4 (· == psshIdentifier) fun readPosition =>
  validate memory readPosition 4 (· == psshVersion1) fun readPosition =>
  validate memory readPosition kSystemIdSize isClearKeyUUID fun readPosition =>
  parseKeyIds initData memory readPosition

/-! ### The request -/

def kRequestPrefix : List Char := "\x7b\"kids\":[".toList
def kTemporarySession : List Char := "],\"type\":\"temporary\"\x7d".toList
def kPersistentSession : List Char := "],\"type\":\"persistent-license\"\x7d".toList

/-- What the request ends with. -/
def session : KeyType → List Char
  | .streaming => kTemporarySession
  | .offline | .release => kPersistentSession

/-- The loop over the key ids, which are positions in the memory. -/
def appendKeyIds (memory : Nat → Byte) : List Nat → Nat → List Char → List Char
  | [], _, request => request
  | keyId :: keyIds, i, request =>
    let encodedId := encodeBase64Url (Blocks.segment memory keyId kKeyIdSize)
    let request := if i ≠ 0 then request ++ [','] else request
    appendKeyIds memory keyIds (i + 1) (request ++ ['"'] ++ encodedId ++ ['"'])

def generateRequest (memory : Nat → Byte) (keyType : KeyType) (keyIds : List Nat) : List Char :=
  (appendKeyIds memory keyIds 0 kRequestPrefix ++ session keyType).filter (· ≠ '=')

def isoBmffTypes : List (List Char) := ["video/mp4".toList, "audio/mp4".toList, "cenc".toList]
def webmTypes : List (List Char) := ["video/webm".toList, "audio/webm".toList, "webm".toList]

/-- What is returned and what stands in `licenseRequest` then. -/
def parse (initData : ByteVector) (after : Nat → Byte) (mimeType : List Char) (keyType : KeyType)
    (licenseRequest : List Char) : Status × List Char :=
  let memory := initData.memory after
  if mimeType ∈ isoBmffTypes then
    let res := parsePssh initData after
    if res.status ≠ .ok then (res.status, licenseRequest)
    else (.ok, generateRequest memory keyType res.keyIds)
  else if mimeType ∈ webmTypes then
    -- the init data are a single key id
    if initData.size ≠ kKeyIdSize then (.errorDrmCannotHandle, licenseRequest)
    else (.ok, generateRequest memory keyType [0])
  else (.errorDrmCannotHandle, licenseRequest)

end MediaFramework.ClearKey
