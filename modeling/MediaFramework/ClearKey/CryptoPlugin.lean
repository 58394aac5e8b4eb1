import MediaFramework.ClearKey.InitData
import MediaFramework.Lib.Buffer
import MediaFramework.Lib.CounterMode

/-!
# ClearKey decryption

`drm/mediadrm/plugins/clearkey/hidl/CryptoPlugin.cpp` with `AesCtrDecryptor.cpp` and
`Session::decrypt`. A pointer is a position behind the base of a shared buffer and wraps at 64 bits;
each byte that is read or written is noted, and a copy reads before it writes.
`AES_ctr128_encrypt` is a parameter.
-/

namespace MediaFramework.ClearKey

/-! ### Memory -/

/-- An address, relative to where a shared buffer is mapped. -/
structure Pointer where
  bufferId : BitVec 32
  position : BitVec 64
  deriving DecidableEq

def Pointer.add (p : Pointer) (n : Nat) : Pointer :=
  { p with position := p.position + BitVec.ofNat 64 n }

/-- The addresses of `n` bytes. -/
def Pointer.range (p : Pointer) (n : Nat) : List Pointer := (List.range n).map p.add

/-- What stands in the buffers, and around them. -/
abbrev Contents := Pointer → Byte

/-- The memory with the addresses that have been accessed. -/
structure Accessed where
  memory : Contents
  reads : List Pointer
  writes : List Pointer

/-- The `n` bytes at `source` are read, and what they are changed to is written to `destination`. -/
def Accessed.copy (m : Accessed) (destination source : Pointer) (n : Nat) (bytes : List Byte) :
    Accessed :=
  ⟨Areas.store m.memory destination.add bytes, m.reads ++ source.range n,
    m.writes ++ destination.range bytes.length⟩

def Accessed.memcpy (m : Accessed) (destination source : Pointer) (n : Nat) : Accessed :=
  m.copy destination source n (Areas.load m.memory source.add n)

/-! ### The types of the interface -/

inductive Status_V1_2
  | OK | ERROR_DRM_NO_LICENSE | ERROR_DRM_SESSION_NOT_OPENED | ERROR_DRM_CANNOT_HANDLE
  | ERROR_DRM_INVALID_STATE | BAD_VALUE | ERROR_DRM_DECRYPT | ERROR_DRM_UNKNOWN
  | ERROR_DRM_INSUFFICIENT_SECURITY | ERROR_DRM_FRAME_TOO_LARGE | ERROR_DRM_SESSION_LOST_STATE
  | ERROR_DRM_RESOURCE_CONTENTION
  deriving DecidableEq

inductive Mode
  | UNENCRYPTED | AES_CTR | AES_CBC_CTS | AES_CBC
  deriving DecidableEq

inductive BufferType
  | SHARED_MEMORY | NATIVE_HANDLE
  deriving DecidableEq

structure SubSample where
  numBytesOfClearData : BitVec 32
  numBytesOfEncryptedData : BitVec 32

def SubSample.size (subSample : SubSample) : Nat :=
  subSample.numBytesOfClearData.toNat + subSample.numBytesOfEncryptedData.toNat

structure SharedBuffer where
  bufferId : BitVec 32
  offset : BitVec 64
  size : BitVec 64

structure DestinationBuffer where
  type : BufferType
  nonsecureMemory : SharedBuffer

/-! ### Counter mode -/

def kBlockSize : Nat := 16

/-- What `AES_ctr128_encrypt` leaves for the next call: `ivec`, `ecount_buf` and `num`. -/
structure CounterState where
  ivec : List Byte
  ecountBuf : List Byte
  num : BitVec 32

/-- The key, the state and the text. -/
abbrev CounterEncrypt := List Byte → CounterState → List Byte → List Byte × CounterState

variable (AES_ctr128_encrypt : CounterEncrypt)

/-- A subsample at `offset`. -/
def decryptSubSample (key : List Byte) (source destination : Pointer) (subSample : SubSample)
    (m : Accessed) (state : CounterState) (offset : Nat) : Accessed × CounterState × Nat :=
  let numBytesOfClearData := subSample.numBytesOfClearData.toNat
  let numBytesOfEncryptedData := subSample.numBytesOfEncryptedData.toNat
  let m :=
    if numBytesOfClearData > 0 then
      m.memcpy (destination.add offset) (source.add offset) numBytesOfClearData
    else m
  let offset := offset + numBytesOfClearData
  if numBytesOfEncryptedData > 0 then
    let res := AES_ctr128_encrypt key state
      (Areas.load m.memory (source.add offset).add numBytesOfEncryptedData)
    (m.copy (destination.add offset) (source.add offset) numBytesOfEncryptedData res.1, res.2,
      offset + numBytesOfEncryptedData)
  else (m, state, offset)

/-- The loop over the subsamples. -/
def decryptSubSamples (key : List Byte) (source destination : Pointer) :
    List SubSample → Accessed → CounterState → Nat → Accessed × Nat
  | [], m, _, offset => (m, offset)
  | subSample :: subSamples, m, state, offset =>
    let res := decryptSubSample AES_ctr128_encrypt key source destination subSample m state offset
    decryptSubSamples key source destination subSamples res.1 res.2.1 res.2.2

/-- `AesCtrDecryptor::decrypt`. -/
def decryptAesCtr (key iv : List Byte) (source destination : Pointer) (subSamples : List SubSample)
    (m : Accessed) : Except Status_V1_2 (Accessed × Nat) :=
  if key.length ≠ kBlockSize then .error .ERROR_DRM_DECRYPT
  else .ok (decryptSubSamples AES_ctr128_encrypt key source destination subSamples m
    ⟨iv, List.replicate kBlockSize 0, 0⟩ 0)

/-! ### Sessions -/

structure Session where
  mKeyMap : List Byte → Option (List Byte)
  mMockError : Status_V1_2

def Session.decrypt (session : Session) (keyId iv : List Byte) (srcPtr destPtr : Pointer)
    (subSamples : List SubSample) (m : Accessed) : Except Status_V1_2 (Accessed × Nat) :=
  if session.mMockError ≠ .OK then .error session.mMockError
  else
    match session.mKeyMap keyId with
    | none => .error .ERROR_DRM_NO_LICENSE
    | some key => decryptAesCtr AES_ctr128_encrypt key iv srcPtr destPtr subSamples m

/-! ### The plugin -/

/-- The map holds the sizes of the buffers, `none` for a null pointer. -/
structure CryptoPlugin where
  mSharedBufferMap : BitVec 32 → Option (Option (BitVec 64))
  mSession : Option Session

/-- The arguments of `decrypt_1_2` that are used. -/
structure Call where
  secure : Bool
  keyId : Vector Byte kBlockSize
  iv : Vector Byte kBlockSize
  mode : Mode
  subSamples : List SubSample
  source : SharedBuffer
  offset : BitVec 64
  destination : DestinationBuffer

/-- The arguments of the callback, and what has become of the memory. -/
structure Result where
  status : Status_V1_2
  bytesWritten : BitVec 32
  detailedError : String
  accessed : Accessed

/-- The output size and whether any subsamples are encrypted. -/
def addSubSamples : List SubSample → Nat → Bool → Except String (Nat × Bool)
  | [], destSize, haveEncryptedSubsamples => .ok (destSize, haveEncryptedSubsamples)
  | subSample :: subSamples, destSize, haveEncryptedSubsamples =>
    if 2 ^ 64 ≤ destSize + subSample.numBytesOfClearData.toNat then
      .error "subsample clear size overflow"
    else if 2 ^ 64 ≤ destSize + subSample.size then .error "subsample encrypted size overflow"
    else addSubSamples subSamples (destSize + subSample.size)
      (decide (subSample.numBytesOfEncryptedData > 0) || haveEncryptedSubsamples)

/-- The loop of the mode without encryption. -/
def copySubSamples (destPtr srcPtr : Pointer) : List SubSample → Accessed → Nat → Accessed × Nat
  | [], m, offset => (m, offset)
  | subSample :: subSamples, m, offset =>
    let numBytesOfClearData := subSample.numBytesOfClearData.toNat
    if numBytesOfClearData ≠ 0 then
      copySubSamples destPtr srcPtr subSamples
        (m.memcpy (destPtr.add offset) (srcPtr.add offset) numBytesOfClearData)
        (offset + numBytesOfClearData)
    else copySubSamples destPtr srcPtr subSamples m offset

/-- What is checked in front of the modes: the source, the destination and whether any subsamples
are encrypted, or a status with its text. -/
def CryptoPlugin.check (plugin : CryptoPlugin) (call : Call) :
    Except (Status_V1_2 × String) (Pointer × Pointer × Bool) :=
  let dest := call.destination.nonsecureMemory
  if call.secure then
    .error (.ERROR_DRM_CANNOT_HANDLE, "Secure decryption is not supported with ClearKey.")
  else
    match plugin.mSharedBufferMap call.source.bufferId with
    | none => .error (.ERROR_DRM_CANNOT_HANDLE, "source decrypt buffer base not set")
    | some sourceBase =>
    match call.destination.type with
    | .NATIVE_HANDLE => .error (.ERROR_DRM_CANNOT_HANDLE, "destination type not supported")
    | .SHARED_MEMORY =>
    match plugin.mSharedBufferMap dest.bufferId with
    | none => .error (.ERROR_DRM_CANNOT_HANDLE, "destination decrypt buffer base not set")
    | some destBase =>
    match sourceBase with
    | none => .error (.ERROR_DRM_CANNOT_HANDLE, "source is a nullptr")
    | some sourceSize =>
    if call.source.offset + call.offset + call.source.size > sourceSize then
      .error (.ERROR_DRM_CANNOT_HANDLE, "invalid buffer size")
    else
    match destBase with
    | none => .error (.ERROR_DRM_CANNOT_HANDLE, "destination is a nullptr")
    | some destSize =>
    if dest.offset + dest.size > destSize then
      .error (.ERROR_DRM_FRAME_TOO_LARGE, "invalid buffer size")
    else
    -- both pointers are in front of the source's base
    let srcPtr := ⟨call.source.bufferId, call.source.offset + call.offset⟩
    let destPtr := ⟨call.source.bufferId, dest.offset⟩
    match addSubSamples call.subSamples 0 false with
    | .error text => .error (.ERROR_DRM_FRAME_TOO_LARGE, text)
    | .ok (size, haveEncryptedSubsamples) =>
      if size > dest.size.toNat then
        .error (.ERROR_DRM_FRAME_TOO_LARGE, "subsample sum too large")
      else .ok (srcPtr, destPtr, haveEncryptedSubsamples)

/-- `none` where a null session is dereferenced. -/
def CryptoPlugin.decrypt_1_2 (plugin : CryptoPlugin) (memory : Contents) (call : Call) :
    Option Result :=
  let m : Accessed := ⟨memory, [], []⟩
  match plugin.check call with
  | .error (status, text) => some ⟨status, 0, text, m⟩
  | .ok (srcPtr, destPtr, haveEncryptedSubsamples) =>
    match call.mode with
    | .UNENCRYPTED =>
      if haveEncryptedSubsamples then
        some ⟨.ERROR_DRM_CANNOT_HANDLE, 0,
          "Encrypted subsamples found in allegedly unencrypted data.", m⟩
      else
        let res := copySubSamples destPtr srcPtr call.subSamples m 0
        some ⟨.OK, BitVec.ofNat 32 res.2, "", res.1⟩
    | .AES_CTR =>
      match plugin.mSession with
      | none => none
      | some session =>
        match session.decrypt AES_ctr128_encrypt call.keyId.toList call.iv.toList srcPtr destPtr
            call.subSamples m with
        | .ok res => some ⟨.OK, BitVec.ofNat 32 res.2, "", res.1⟩
        | .error res => some ⟨res, 0, "Decryption Error", m⟩
    | .AES_CBC_CTS | .AES_CBC =>
      some ⟨.ERROR_DRM_CANNOT_HANDLE, 0,
        "Selected encryption mode is not supported by the ClearKey DRM Plugin.", m⟩

end MediaFramework.ClearKey
