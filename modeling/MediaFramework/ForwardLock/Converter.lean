import Mathlib.Data.List.DropRight

/-!
# The forward-lock converter

`FwdLockConv.c` (`drm/libdrmframework/plugins/forward-lock/internal-format/converter`) turns a DRM
message, which comes in pieces, into an encrypted file. `AES_encrypt` (of a key and a block) and
`HMAC` (of a key and a message) are parameters. Memory is always there.
-/

namespace MediaFramework.ForwardLock

abbrev Byte := BitVec 8

def chr (c : Char) : Byte := BitVec.ofNat 8 c.toNat

def CR : Byte := 0x0d

def LF : Byte := 0x0a

def TAB : Byte := 0x09

def SPACE : Byte := 0x20

def DASH : Byte := 0x2d

def QUOTE : Byte := 0x27

def MAX_BOUNDARY_LENGTH : Nat := 70

def MAX_DELIMITER_LENGTH : Nat := MAX_BOUNDARY_LENGTH + 4

def AES_BLOCK_SIZE : Nat := 16

def KEY_SIZE : Nat := AES_BLOCK_SIZE

def SHA1_HASH_SIZE : Nat := 20

def TOP_HEADER_SIZE : Nat := 8

def UCHAR_MAX : Nat := 255

inductive Status
  | OK
  | InvalidArgument
  | OutOfMemory
  | SyntaxError
  | UnsupportedFileFormat
  | UnsupportedContentTransferEncoding
  | RandomNumberGenerationFailed
  | KeyEncryptionFailed
  | ProgramError
  deriving DecidableEq

inductive ParserState
  | WantsOpenDelimiter
  | WantsMimeHeaders
  | WantsBinaryEncodedData
  | WantsBase64EncodedData
  | Done
  deriving DecidableEq

inductive ScannerState
  | WantsFirstDash
  | WantsSecondDash
  | WantsCR
  | WantsLF
  | WantsBoundary
  | WantsBoundaryEnd
  | WantsMimeHeaderNameStart
  | WantsMimeHeaderName
  | WantsMimeHeaderNameEnd
  | WantsContentTypeStart
  | WantsContentType
  | WantsContentTransferEncodingStart
  | Wants_A_OR_I
  | Wants_N
  | Wants_A
  | Wants_R
  | Wants_Y
  | Wants_S
  | Wants_E
  | Wants_6
  | Wants_4
  | Wants_B
  | Wants_I
  | Wants_T
  | WantsContentTransferEncodingEnd
  | WantsMimeHeaderValueEnd
  | WantsMimeHeadersEnd
  | WantsByte1
  | WantsByte1_AfterCRLF
  | WantsByte2
  | WantsByte3
  | WantsByte4
  | WantsPadding
  | WantsWhitespace
  | WantsWhitespace_AfterCRLF
  | WantsDelimiter
  deriving DecidableEq

inductive ContentTransferEncoding
  | Undefined
  | Binary
  | Base64
  deriving DecidableEq

/-- The session together with the output of `ConvertData`: `pBuffer` up to `numBytes`, and
`errorPos`, where `none` is `INVALID_OFFSET`. The delimiter has `delimiterLength` characters, a
`contentType` without memory is `none`, and `signingInput` is what `signingContext` has been fed. -/
structure Session where
  parserState : ParserState := .WantsOpenDelimiter
  scannerState : ScannerState := .WantsFirstDash
  savedScannerState : ScannerState := .WantsFirstDash
  numCharsConsumed : Nat := 0
  delimiter : List Byte := []
  delimiterMatchPos : Nat := 0
  mimeHeaderName : List Byte := []
  contentType : Option (List Byte) := none
  contentTransferEncoding : ContentTransferEncoding := .Undefined
  encryptedSessionKey : List Byte
  encryptionKey : List Byte
  signingKey : List Byte
  signingInput : List Byte := []
  topHeader : List Byte := []
  counter : List Byte
  keyStream : List Byte := []
  keyStreamIndex : Int := -1
  ch : Byte := 0
  dataOffset : Nat := 0
  numDataBytes : Nat := 0
  pBuffer : List Byte := []
  errorPos : Option Nat := none
  deriving DecidableEq

def topHeaderTemplate : List Byte := ['F', 'W', 'L', 'K'].map chr ++ [0, 0, 0]

def strContent : List Byte := ['c', 'o', 'n', 't', 'e', 'n', 't', '-'].map chr

def strType : List Byte := ['t', 'y', 'p', 'e'].map chr

def strTransferEncoding : List Byte :=
  ['t', 'r', 'a', 'n', 's', 'f', 'e', 'r', '-', 'e', 'n', 'c', 'o', 'd', 'i', 'n', 'g'].map chr

def strTextPlain : List Byte := ['t', 'e', 'x', 't', '/', 'p', 'l', 'a', 'i', 'n'].map chr

def strApplicationVndOmaDrm : List Byte :=
  ['a', 'p', 'p', 'l', 'i', 'c', 'a', 't', 'i', 'o', 'n', '/', 'v', 'n', 'd', '.', 'o', 'm', 'a',
    '.', 'd', 'r', 'm', '.'].map chr

def strApplicationVndOmaDrmRightsXml : List Byte :=
  strApplicationVndOmaDrm ++ ['r', 'i', 'g', 'h', 't', 's', '+', 'x', 'm', 'l'].map chr

def strApplicationVndOmaDrmContent : List Byte :=
  strApplicationVndOmaDrm ++ ['c', 'o', 'n', 't', 'e', 'n', 't'].map chr

/-! The C library on ASCII. Bytes from 128 on, whether `char` has a sign or not, are in no class. -/

def isalnum (ch : Byte) : Bool :=
  (0x30 ≤ ch.toNat && ch.toNat ≤ 0x39) || (0x41 ≤ ch.toNat && ch.toNat ≤ 0x5a) ||
    (0x61 ≤ ch.toNat && ch.toNat ≤ 0x7a)

def isgraph (ch : Byte) : Bool := 0x21 ≤ ch.toNat && ch.toNat ≤ 0x7e

def tolower (ch : Byte) : Byte := if 0x41 ≤ ch.toNat ∧ ch.toNat ≤ 0x5a then ch + 0x20 else ch

def isBoundaryChar (ch : Byte) : Bool :=
  isalnum ch || ch = QUOTE || ch ∈ ['(', ')', '+', '_', ',', '-', '.', '/', ':', '=', '?', ' ', '%',
    '[', '&', '*', '^'].map chr

def isWhitespace (ch : Byte) : Bool := ch = SPACE || ch = TAB

def isMimeHeaderNameChar (ch : Byte) : Bool := isgraph ch && ch ≠ chr ':'

def isMimeHeaderValueChar (ch : Byte) : Bool := isgraph ch && ch ≠ chr ';'

def base64Values : List Int :=
  [-1, -1, -1, -1, -1, -1, -1, -1, -1, -1, -1, -1, -1, -1, -1, -1,
    -1, -1, -1, -1, -1, -1, -1, -1, -1, -1, -1, -1, -1, -1, -1, -1,
    -1, -1, -1, -1, -1, -1, -1, -1, -1, -1, -1, 62, -1, -1, -1, 63,
    52, 53, 54, 55, 56, 57, 58, 59, 60, 61, -1, -1, -1, -2, -1, -1,
    -1,  0,  1,  2,  3,  4,  5,  6,  7,  8,  9, 10, 11, 12, 13, 14,
    15, 16, 17, 18, 19, 20, 21, 22, 23, 24, 25, -1, -1, -1, -1, -1,
    -1, 26, 27, 28, 29, 30, 31, 32, 33, 34, 35, 36, 37, 38, 39, 40,
    41, 42, 43, 44, 45, 46, 47, 48, 49, 50, 51]

def isBase64Char (ch : Byte) : Bool :=
  ch.toNat ≤ (chr 'z').toNat && 0 ≤ base64Values.getD ch.toNat (-1)

def base64Value (ch : Byte) : Byte := BitVec.ofInt 8 (base64Values.getD ch.toNat (-1))

namespace Session

/-- `scannerState` changes and nothing else. -/
def goTo (s : Session) (scannerState : ScannerState) : Session × Status :=
  ({ s with scannerState := scannerState }, .OK)

def rightTrimDelimiter (s : Session) : Session × Status :=
  let delimiter := s.delimiter.take 4 ++ (s.delimiter.drop 4).rdropWhile (· = SPACE)
  ({ s with delimiter := delimiter }, if 4 < delimiter.length then .OK else .SyntaxError)

def matchOpenDelimiter (s : Session) (ch : Byte) : Session × Status :=
  match s.scannerState with
  | .WantsFirstDash =>
    if ch = DASH then s.goTo .WantsSecondDash
    else if ch = CR then s.goTo .WantsLF
    else s.goTo .WantsCR
  | .WantsSecondDash =>
    if ch = DASH then { s with delimiter := [CR, LF, DASH, DASH] }.goTo .WantsBoundary
    else if ch = CR then s.goTo .WantsLF
    else s.goTo .WantsCR
  | .WantsCR => if ch = CR then s.goTo .WantsLF else (s, .OK)
  | .WantsLF =>
    if ch = LF then s.goTo .WantsFirstDash
    else if ch ≠ CR then s.goTo .WantsCR
    else (s, .OK)
  | .WantsBoundary =>
    if isBoundaryChar ch then
      if s.delimiter.length < MAX_DELIMITER_LENGTH then
        ({ s with delimiter := s.delimiter ++ [ch] }, .OK)
      else if ch ≠ SPACE then (s, .SyntaxError)
      else (s, .OK)
    else if ch = CR then
      let (s, status) := s.rightTrimDelimiter
      if status = .OK then s.goTo .WantsBoundaryEnd else (s, status)
    else if ch = TAB then
      let (s, status) := s.rightTrimDelimiter
      if status = .OK then s.goTo .WantsWhitespace else (s, status)
    else (s, .SyntaxError)
  | .WantsWhitespace =>
    if ch = CR then s.goTo .WantsBoundaryEnd
    else if ¬isWhitespace ch then (s, .SyntaxError)
    else (s, .OK)
  | .WantsBoundaryEnd =>
    if ch = LF then { s with parserState := .WantsMimeHeaders }.goTo .WantsMimeHeaderNameStart
    else (s, .SyntaxError)
  | _ => (s, .ProgramError)

def recognizeMimeHeaderName (s : Session) : Session × Status :=
  if s.mimeHeaderName.take strContent.length = strContent then
    if s.mimeHeaderName.drop strContent.length = strType then
      if s.contentType = none then s.goTo .WantsContentTypeStart else (s, .SyntaxError)
    else if s.mimeHeaderName.drop strContent.length = strTransferEncoding then
      if s.contentTransferEncoding = .Undefined then s.goTo .WantsContentTransferEncodingStart
      else (s, .SyntaxError)
    else s.goTo .WantsCR
  else s.goTo .WantsCR

def applyDefaults (s : Session) : Session :=
  { s with
    contentType := some (s.contentType.getD strTextPlain)
    contentTransferEncoding :=
      if s.contentTransferEncoding = .Undefined then .Binary else s.contentTransferEncoding }

def verifyContentType (s : Session) : Status :=
  if s.contentType = none then .ProgramError
  else if s.contentType = some strApplicationVndOmaDrmRightsXml ∨
      s.contentType = some strApplicationVndOmaDrmContent then .UnsupportedFileFormat
  else .OK

/-- The signatures are zeros for now. -/
def writeHeader (s : Session) : Session × Status :=
  let contentType := s.contentType.getD []
  if UCHAR_MAX < contentType.length then (s, .SyntaxError)
  else
    let topHeader := topHeaderTemplate ++ [BitVec.ofNat 8 contentType.length]
    ({ s with
      topHeader := topHeader
      dataOffset := TOP_HEADER_SIZE + contentType.length + s.encryptedSessionKey.length +
        SHA1_HASH_SIZE + SHA1_HASH_SIZE
      pBuffer := topHeader ++ contentType ++ s.encryptedSessionKey ++
        List.replicate (SHA1_HASH_SIZE + SHA1_HASH_SIZE) 0 }, .OK)

/-- One of the characters goes on to the next state. -/
def wants (s : Session) (ch : Byte) (expected : List Byte) (next : ScannerState) :
    Session × Status :=
  if ch ∈ expected then s.goTo next else (s, .UnsupportedContentTransferEncoding)

/-- The end of a header value, with a status for other characters. -/
def wantsValueEnd (s : Session) (ch : Byte) (otherwise : Status) : Session × Status :=
  if ch = chr ';' then s.goTo .WantsCR
  else if ch = CR then s.goTo .WantsLF
  else if isWhitespace ch then s.goTo .WantsMimeHeaderValueEnd
  else (s, otherwise)

def matchMimeHeadersEnd (s : Session) : Session × Status :=
  let s := s.applyDefaults
  if s.verifyContentType ≠ .OK then (s, s.verifyContentType)
  else
    let (s, status) := s.writeHeader
    if status ≠ .OK then (s, status)
    else
      { s with
        parserState := if s.contentTransferEncoding = ContentTransferEncoding.Binary then
          .WantsBinaryEncodedData else .WantsBase64EncodedData }.goTo .WantsByte1

def matchMimeHeaders (s : Session) (ch : Byte) : Session × Status :=
  match s.scannerState with
  | .WantsMimeHeaderNameStart =>
    if isMimeHeaderNameChar ch then
      { s with mimeHeaderName := [tolower ch] }.goTo .WantsMimeHeaderName
    else if ch = CR then s.goTo .WantsMimeHeadersEnd
    else if ¬isWhitespace ch then (s, .SyntaxError)
    else (s, .OK)
  | .WantsMimeHeaderName =>
    if isMimeHeaderNameChar ch then
      ({ s with mimeHeaderName := s.mimeHeaderName ++ [tolower ch] }, .OK)
    else if ch = chr ':' then s.recognizeMimeHeaderName
    else if isWhitespace ch then s.goTo .WantsMimeHeaderNameEnd
    else (s, .SyntaxError)
  | .WantsMimeHeaderNameEnd =>
    if ch = chr ':' then s.recognizeMimeHeaderName
    else if ¬isWhitespace ch then (s, .SyntaxError)
    else (s, .OK)
  | .WantsContentTypeStart =>
    if isMimeHeaderValueChar ch then
      { s with contentType := some (s.contentType.getD [] ++ [tolower ch]) }.goTo .WantsContentType
    else if ¬isWhitespace ch then (s, .SyntaxError)
    else (s, .OK)
  | .WantsContentType =>
    if isMimeHeaderValueChar ch then
      ({ s with contentType := some (s.contentType.getD [] ++ [tolower ch]) }, .OK)
    else s.wantsValueEnd ch .SyntaxError
  | .WantsContentTransferEncodingStart =>
    if ch = chr 'b' ∨ ch = chr 'B' then s.goTo .Wants_A_OR_I
    else if ch = chr '7' ∨ ch = chr '8' then s.goTo .Wants_B
    else if ¬isWhitespace ch then (s, .UnsupportedContentTransferEncoding)
    else (s, .OK)
  | .Wants_A_OR_I =>
    if ch = chr 'i' ∨ ch = chr 'I' then s.goTo .Wants_N
    else s.wants ch [chr 'a', chr 'A'] .Wants_S
  | .Wants_N => s.wants ch [chr 'n', chr 'N'] .Wants_A
  | .Wants_A => s.wants ch [chr 'a', chr 'A'] .Wants_R
  | .Wants_R => s.wants ch [chr 'r', chr 'R'] .Wants_Y
  | .Wants_Y =>
    if ch = chr 'y' ∨ ch = chr 'Y' then
      { s with contentTransferEncoding := .Binary }.goTo .WantsContentTransferEncodingEnd
    else (s, .UnsupportedContentTransferEncoding)
  | .Wants_S => s.wants ch [chr 's', chr 'S'] .Wants_E
  | .Wants_E => s.wants ch [chr 'e', chr 'E'] .Wants_6
  | .Wants_6 => s.wants ch [chr '6'] .Wants_4
  | .Wants_4 =>
    if ch = chr '4' then
      { s with contentTransferEncoding := .Base64 }.goTo .WantsContentTransferEncodingEnd
    else (s, .UnsupportedContentTransferEncoding)
  | .Wants_B => s.wants ch [chr 'b', chr 'B'] .Wants_I
  | .Wants_I => s.wants ch [chr 'i', chr 'I'] .Wants_T
  | .Wants_T =>
    if ch = chr 't' ∨ ch = chr 'T' then
      { s with contentTransferEncoding := .Binary }.goTo .WantsContentTransferEncodingEnd
    else (s, .UnsupportedContentTransferEncoding)
  | .WantsContentTransferEncodingEnd => s.wantsValueEnd ch .UnsupportedContentTransferEncoding
  | .WantsMimeHeaderValueEnd =>
    if ch = chr ';' then s.goTo .WantsCR
    else if ch = CR then s.goTo .WantsLF
    else if ¬isWhitespace ch then (s, .SyntaxError)
    else (s, .OK)
  | .WantsCR => if ch = CR then s.goTo .WantsLF else (s, .OK)
  | .WantsLF => if ch = LF then s.goTo .WantsMimeHeaderNameStart else (s, .SyntaxError)
  | .WantsMimeHeadersEnd => if ch = LF then s.matchMimeHeadersEnd else (s, .SyntaxError)
  | _ => (s, .ProgramError)

/-! ### The data -/

/-- The counter is a little-endian number. -/
def incrementCounter : List Byte → List Byte
  | [] => []
  | b :: counter => (b + 1) :: if b + 1 = 0 then incrementCounter counter else counter

section Data

variable (AES_encrypt : List Byte → List Byte → List Byte)

/-- `counter`, `keyStream` and `keyStreamIndex` for the next character. There is a new block of the
key stream for the first character and after every 16. -/
def nextKeyStream (key counter keyStream : List Byte) (keyStreamIndex : Int) :
    List Byte × List Byte × Int :=
  if keyStreamIndex + 1 = (AES_BLOCK_SIZE : Int) then
    (incrementCounter counter, AES_encrypt key (incrementCounter counter), 0)
  else if keyStreamIndex + 1 = 0 then (counter, AES_encrypt key counter, 0)
  else (counter, keyStream, keyStreamIndex + 1)

def writeEncryptedChar (s : Session) (ch : Byte) : Session :=
  let (counter, keyStream, keyStreamIndex) :=
    nextKeyStream AES_encrypt s.encryptionKey s.counter s.keyStream s.keyStreamIndex
  { s with
    counter := counter
    keyStream := keyStream
    keyStreamIndex := keyStreamIndex
    pBuffer := s.pBuffer ++ [ch ^^^ keyStream.getD keyStreamIndex.toNat 0]
    numDataBytes := s.numDataBytes + 1 }

def writeEncryptedChars (s : Session) (data : List Byte) : Session :=
  data.foldl (writeEncryptedChar AES_encrypt) s

/-- The two dashes at the end of the close delimiter. -/
def matchCloseDashes (s : Session) (ch : Byte) : Session × Status :=
  match s.scannerState with
  | .WantsFirstDash => if ch = DASH then s.goTo .WantsSecondDash else (s, .SyntaxError)
  | .WantsSecondDash =>
    if ch = DASH then ({ s with parserState := .Done }, .OK) else (s, .SyntaxError)
  | _ => (s, .ProgramError)

/-- A partial match that comes to nothing is written as data. -/
def flushDelimiter (s : Session) (ch : Byte) : Session :=
  if ch ≠ s.delimiter.getD s.delimiterMatchPos 0 then
    { s.writeEncryptedChars AES_encrypt (s.delimiter.take s.delimiterMatchPos) with
      delimiterMatchPos := 0 }
  else s

def matchBinaryEncodedData (s : Session) (ch : Byte) : Session × Status :=
  match s.scannerState with
  | .WantsByte1 =>
    let s := s.flushDelimiter AES_encrypt ch
    if ch ≠ s.delimiter.getD s.delimiterMatchPos 0 then (s.writeEncryptedChar AES_encrypt ch, .OK)
    else
      let s := { s with delimiterMatchPos := s.delimiterMatchPos + 1 }
      if s.delimiterMatchPos = s.delimiter.length then s.goTo .WantsFirstDash else (s, .OK)
  | _ => s.matchCloseDashes ch

/-- A line break within base64 data, after which `saved` goes on. -/
def wantsLineBreak (s : Session) (saved : ScannerState) : Session × Status :=
  { s with savedScannerState := saved }.goTo .WantsLF

/-- A dash may begin the delimiter if it comes after a line break. -/
def wantsDelimiter (s : Session) (afterCRLF : Bool) : Session × Status :=
  if afterCRLF then { s with delimiterMatchPos := 3 }.goTo .WantsDelimiter
  else (s, .SyntaxError)

/-- A character in the middle of four: the byte it completes is written, and its low bits are kept
for the next one. -/
def completeByte (s : Session) (high low : Byte) (next : ScannerState) : Session × Status :=
  { (s.writeEncryptedChar AES_encrypt (s.ch ||| high)) with ch := low }.goTo next

/-- The last of four characters completes the third byte. -/
def completeLastByte (s : Session) (low : Byte) : Session × Status :=
  let s := { s with ch := s.ch ||| low }
  (s.writeEncryptedChar AES_encrypt s.ch).goTo .WantsByte1

def matchBase64EncodedData (s : Session) (ch : Byte) : Session × Status :=
  match s.scannerState with
  | .WantsByte1 | .WantsByte1_AfterCRLF =>
    if isBase64Char ch then { s with ch := base64Value ch <<< 2 }.goTo .WantsByte2
    else if ch = CR then s.wantsLineBreak .WantsByte1_AfterCRLF
    else if ch = DASH then s.wantsDelimiter (s.scannerState = .WantsByte1_AfterCRLF)
    else if ¬isWhitespace ch then (s, .SyntaxError)
    else (s, .OK)
  | .WantsByte2 =>
    if isBase64Char ch then
      s.completeByte AES_encrypt (base64Value ch >>> 4) (base64Value ch <<< 4) .WantsByte3
    else if ch = CR then s.wantsLineBreak s.scannerState
    else if ¬isWhitespace ch then (s, .SyntaxError)
    else (s, .OK)
  | .WantsByte3 =>
    if isBase64Char ch then
      s.completeByte AES_encrypt (base64Value ch >>> 2) (base64Value ch <<< 6) .WantsByte4
    else if ch = CR then s.wantsLineBreak s.scannerState
    else if ch = chr '=' then s.goTo .WantsPadding
    else if ¬isWhitespace ch then (s, .SyntaxError)
    else (s, .OK)
  | .WantsByte4 =>
    if isBase64Char ch then s.completeLastByte AES_encrypt (base64Value ch)
    else if ch = CR then s.wantsLineBreak s.scannerState
    else if ch = chr '=' then s.goTo .WantsWhitespace
    else if ¬isWhitespace ch then (s, .SyntaxError)
    else (s, .OK)
  | .WantsLF => if ch = LF then s.goTo s.savedScannerState else (s, .SyntaxError)
  | .WantsPadding => if ch = chr '=' then s.goTo .WantsWhitespace else (s, .SyntaxError)
  | .WantsWhitespace | .WantsWhitespace_AfterCRLF =>
    if ch = CR then s.wantsLineBreak .WantsWhitespace_AfterCRLF
    else if ch = DASH then s.wantsDelimiter (s.scannerState = .WantsWhitespace_AfterCRLF)
    else if isWhitespace ch then s.goTo .WantsWhitespace
    else (s, .SyntaxError)
  | .WantsDelimiter =>
    if ch ≠ s.delimiter.getD s.delimiterMatchPos 0 then (s, .SyntaxError)
    else
      let s := { s with delimiterMatchPos := s.delimiterMatchPos + 1 }
      if s.delimiterMatchPos = s.delimiter.length then s.goTo .WantsFirstDash else (s, .OK)
  | _ => s.matchCloseDashes ch

/-- A bare line feed in base64 data is taken as a line break. -/
def repairBase64EncodedData (s : Session) (ch : Byte) : Session × Status :=
  if ch = LF ∧ s.scannerState ≠ .WantsLF then
    let (s, status) := s.matchBase64EncodedData AES_encrypt CR
    if status ≠ .OK then (s, status) else s.matchBase64EncodedData AES_encrypt ch
  else s.matchBase64EncodedData AES_encrypt ch

/-- The switch of `PushChar`. -/
def matchChar (s : Session) (ch : Byte) : Session × Status :=
  match s.parserState with
  | .WantsOpenDelimiter => s.matchOpenDelimiter ch
  | .WantsMimeHeaders => s.matchMimeHeaders ch
  | .WantsBinaryEncodedData => s.matchBinaryEncodedData AES_encrypt ch
  | .WantsBase64EncodedData => s.repairBase64EncodedData AES_encrypt ch
  | .Done => (s, .OK)

/-- The character is counted before it is looked at. -/
def counted (s : Session) : Session := { s with numCharsConsumed := s.numCharsConsumed + 1 }

def pushChar (s : Session) (ch : Byte) : Session × Status := s.counted.matchChar AES_encrypt ch

/-- The loop of `ConvertData`. -/
def pushChars (s : Session) : List Byte → Session × Status
  | [] => (s, .OK)
  | ch :: data =>
    let (s, status) := s.pushChar AES_encrypt ch
    if status ≠ .OK then (s, status) else s.pushChars data

/-- The signature is updated with the data bytes of a call that ends well. -/
def convertData (s : Session) (data : List Byte) : Session × Status :=
  let (s, status) :=
    { s with dataOffset := 0, numDataBytes := 0, pBuffer := [] }.pushChars AES_encrypt data
  if status = .OK then
    ({ s with signingInput := s.signingInput ++ (s.pBuffer.drop s.dataOffset).take s.numDataBytes },
      status)
  else if status = .SyntaxError then ({ s with errorPos := some s.numCharsConsumed }, status)
  else (s, status)

end Data

end Session

/-! ### Opening and closing -/

/-- What `CloseSession` puts out. -/
structure CloseOutput where
  status : Status
  signatures : List Byte := []
  fileOffset : Nat := 0
  errorPos : Option Nat := none
  deriving DecidableEq

section

variable (AES_encrypt HMAC : List Byte → List Byte → List Byte)
  (AES_cbc_encrypt : List Byte → List Byte → List Byte)

/-- The header signature is made with the same key, after the data signature. -/
def Session.closeSession (s : Session) : CloseOutput :=
  if s.parserState ≠ .Done then { status := .SyntaxError, errorPos := some s.numCharsConsumed }
  else
    let dataSignature := HMAC s.signingKey s.signingInput
    if dataSignature.length ≠ SHA1_HASH_SIZE then { status := .ProgramError }
    else
      let contentType := s.contentType.getD []
      let headerSignature := HMAC s.signingKey
        (s.topHeader ++ contentType ++ s.encryptedSessionKey ++ dataSignature)
      if headerSignature.length ≠ SHA1_HASH_SIZE then { status := .ProgramError }
      else
        { status := .OK
          signatures := dataSignature ++ headerSignature
          fileOffset := TOP_HEADER_SIZE + contentType.length + s.encryptedSessionKey.length }

/-- `AES_encrypt` of the values 0 and 1 gives the keys for encryption and for signing. -/
def deriveKeys (sessionKey : List Byte) : List Byte × List Byte :=
  (AES_encrypt sessionKey (List.replicate KEY_SIZE 0),
    AES_encrypt sessionKey (1 :: List.replicate (KEY_SIZE - 1) 0))

def getEncryptedKeyLength (plaintextKeyLength : Nat) : Nat :=
  (plaintextKeyLength / AES_BLOCK_SIZE + 2) * AES_BLOCK_SIZE

/-- `EncryptKey` of `FwdLockGlue.c`. The initialization vector stands behind the padded key. -/
def encryptKey (plaintextKey initVector : List Byte) : List Byte :=
  let padding := AES_BLOCK_SIZE - plaintextKey.length % AES_BLOCK_SIZE
  AES_cbc_encrypt initVector (plaintextKey ++ List.replicate padding (BitVec.ofNat 8 padding)) ++
    initVector

/-- `OpenSession`, with the random numbers if there are any. -/
def openSession (sessionKey initVector : Option (List Byte)) : Except Status Session :=
  if getEncryptedKeyLength KEY_SIZE < AES_BLOCK_SIZE then .error .ProgramError
  else
    match sessionKey, initVector with
    | none, _ => .error .RandomNumberGenerationFailed
    | _, none => .error .KeyEncryptionFailed
    | some sessionKey, some initVector =>
      let encryptedSessionKey := encryptKey AES_cbc_encrypt sessionKey initVector
      .ok
        { encryptedSessionKey
          encryptionKey := (deriveKeys AES_encrypt sessionKey).1
          signingKey := (deriveKeys AES_encrypt sessionKey).2
          counter := encryptedSessionKey.take AES_BLOCK_SIZE }

end

end MediaFramework.ForwardLock
