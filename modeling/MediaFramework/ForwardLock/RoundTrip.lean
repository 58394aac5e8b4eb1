import MediaFramework.ForwardLock.Base64Bodies
import MediaFramework.ForwardLock.Fronts

/-!
# Forward-lock round trips

The file that a conversion leaves is opened, checked and read at any places. The decoder stands for
a plain file that holds the body of the message.
-/

namespace MediaFramework.ForwardLock

open LittleEndian (increment)

/-! ### Integrity -/

def SHA1_BLOCK_SIZE : Nat := 64

def SIG_CALC_BUFFER_SIZE : Nat := 16 * SHA1_BLOCK_SIZE

/-- The loop of `CheckDataIntegrity`, which reads until nothing is read. -/
def File.readAll (f : File) : File × List Byte :=
  if _h : 0 < (f.read SIG_CALC_BUFFER_SIZE).2.length then
    let (f', data) := (f.read SIG_CALC_BUFFER_SIZE).1.readAll
    (f', (f.read SIG_CALC_BUFFER_SIZE).2 ++ data)
  else ((f.read SIG_CALC_BUFFER_SIZE).1, [])
termination_by f.contents.length - f.pos
decreasing_by
  simp only [File.read, List.length_take, List.length_drop] at _h ⊢
  omega

/-- A session with what `attach` keeps for the checks. -/
structure SignedFile where
  lock : LockFile
  topHeader : List Byte
  dataSignature : List Byte
  headerSignature : List Byte
  signingKey : List Byte
  deriving DecidableEq

namespace SignedFile

section

variable (AES_encrypt AES_cbc_decrypt HMAC : List Byte → List Byte → List Byte)

/-- `attach` with the signatures. -/
def attach (f : File) : Option SignedFile := do
  let (f, topHeader) ← LockFile.readExactly f TOP_HEADER_SIZE
  if topHeader.take topHeaderTemplate.length ≠ topHeaderTemplate then none
  else
    let (f, contentType) ← LockFile.readExactly f (topHeader.getD 7 0).toNat
    let (f, encryptedSessionKey) ← LockFile.readExactly f (getEncryptedKeyLength KEY_SIZE)
    let (f, dataSignature) ← LockFile.readExactly f SHA1_HASH_SIZE
    let (f, headerSignature) ← LockFile.readExactly f SHA1_HASH_SIZE
    let sessionKey ← decryptKey AES_cbc_decrypt encryptedSessionKey KEY_SIZE
    some
      { lock :=
          { file := f
            contentType
            encryptedSessionKey
            dataOffset := contentType.length + encryptedSessionKey.length + TOP_HEADER_SIZE +
              2 * SHA1_HASH_SIZE
            filePos := 0
            encryptionKey := (deriveKeys AES_encrypt sessionKey).1
            keyStream := []
            blockIndex := INVALID_BLOCK_INDEX }
        topHeader
        dataSignature
        headerSignature
        signingKey := (deriveKeys AES_encrypt sessionKey).2 }

/-- The same session as without the signatures. -/
theorem attach_lock (f : File) : (attach AES_encrypt AES_cbc_decrypt f).map lock =
    LockFile.attach AES_encrypt AES_cbc_decrypt f := by
  rw [attach, LockFile.attach]
  simp only [Option.bind_eq_bind, Option.map_bind]
  refine Option.bind_congr fun res _ => ?_
  simp only [Function.comp_apply]
  split
  · rfl
  · simp only [Option.map_bind, Function.comp_def, Option.map_some]

def checkHeaderIntegrity (a : SignedFile) : Bool :=
  HMAC a.signingKey (a.topHeader ++ a.lock.contentType ++ a.lock.encryptedSessionKey ++
    a.dataSignature) == a.headerSignature

/-- The position in the file is restored. -/
def checkDataIntegrity (a : SignedFile) : SignedFile × Bool :=
  let (f, pos) := a.lock.file.lseek OFF64_MAX a.lock.dataOffset .SEEK_SET
  if pos ≠ a.lock.dataOffset then ({ a with lock := { a.lock with file := f } }, false)
  else
    let (f, data) := f.readAll
    let result := HMAC a.signingKey data == a.dataSignature
    let f := (f.lseek OFF64_MAX (a.lock.dataOffset + a.lock.filePos) .SEEK_SET).1
    ({ a with lock := { a.lock with file := f } }, result)

def checkIntegrity (a : SignedFile) : SignedFile × Bool :=
  if a.checkHeaderIntegrity HMAC then a.checkDataIntegrity HMAC else (a, false)

end

end SignedFile

/-! ### Requests -/

inductive Request
  | read (numBytes : Nat)
  | lseek (offset : Int) (whence : Whence)
  | checkIntegrity

inductive Response
  | data (data : List Byte)
  | position (pos : Int)
  | integrity (result : Bool)
  deriving DecidableEq

def SignedFile.answer (AES_encrypt HMAC : List Byte → List Byte → List Byte) (a : SignedFile) :
    Request → SignedFile × Response
  | .read numBytes =>
    let (l, data) := a.lock.read AES_encrypt numBytes
    ({ a with lock := l }, .data data)
  | .lseek offset whence =>
    let (l, pos) := a.lock.lseek offset whence
    ({ a with lock := l }, .position pos)
  | .checkIntegrity =>
    let (a, result) := a.checkIntegrity HMAC
    (a, .integrity result)

/-- A plain file, which is always whole. -/
def File.answer (maxOffset : Nat) (f : File) : Request → File × Response
  | .read numBytes =>
    let (f, data) := f.read numBytes
    (f, .data data)
  | .lseek offset whence =>
    let (f, pos) := f.lseek maxOffset offset whence
    (f, .position pos)
  | .checkIntegrity => (f, .integrity true)

/-- The responses to one request after the other. -/
def responses {σ : Type} (answer : σ → Request → σ × Response) (s : σ) : List Request → List Response
  | [] => []
  | request :: requests =>
    (answer s request).2 :: responses answer (answer s request).1 requests

/-! ### Reading -/

section

variable {AES_encrypt HMAC : List Byte → List Byte → List Byte}

/-- What is kept of the key stream is a block of it. -/
def Cached (AES_encrypt : List Byte → List Byte → List Byte) (l : LockFile) : Prop :=
  l.blockIndex = INVALID_BLOCK_INDEX ∨ ∃ block < 2 ^ 60, l.blockIndex = BitVec.ofNat 64 block ∧
    l.keyStream = AES_encrypt l.encryptionKey
      (increment^[block] (l.encryptedSessionKey.take AES_BLOCK_SIZE))

/-- The key stream of a session. -/
def LockFile.keyByte (AES_encrypt : List Byte → List Byte → List Byte) (l : LockFile) : Nat → Byte :=
  ForwardLock.keyByte AES_encrypt l.encryptionKey (l.encryptedSessionKey.take AES_BLOCK_SIZE)

theorem decryptByte_spec {l : LockFile} (hl : Cached AES_encrypt l) (hpos : l.filePos ≤ OFF64_MAX)
    (b : Byte) : (l.decryptByte AES_encrypt b).2 = b ^^^ l.keyByte AES_encrypt l.filePos ∧
      ∃ keyStream blockIndex, (l.decryptByte AES_encrypt b).1 =
          { l with keyStream := keyStream, blockIndex := blockIndex } ∧
        Cached AES_encrypt { l with keyStream := keyStream, blockIndex := blockIndex } := by
  have hblock : l.filePos / AES_BLOCK_SIZE < 2 ^ 60 := by
    rw [OFF64_MAX] at hpos
    rw [AES_BLOCK_SIZE]
    omega
  have hcounter : calculateCounter l.encryptedSessionKey
      (BitVec.ofNat 64 (l.filePos / AES_BLOCK_SIZE)) =
        increment^[l.filePos / AES_BLOCK_SIZE] (l.encryptedSessionKey.take AES_BLOCK_SIZE) :=
    calculateCounter_eq _ (by omega)
  rw [LockFile.decryptByte]
  dsimp only
  split
  · rw [hcounter]
    exact ⟨rfl, _, _, rfl, .inr ⟨_, hblock, rfl, rfl⟩⟩
  · next hsame =>
    have hsame := not_not.mp hsame
    refine ⟨?_, _, _, rfl, hl⟩
    obtain hinvalid | ⟨block, hlt, hindex, hkeyStream⟩ := hl
    · -- no position in a file has this block
      have hvalue := congrArg BitVec.toNat (hsame.trans hinvalid)
      rw [BitVec.toNat_ofNat, Nat.mod_eq_of_lt (by omega)] at hvalue
      have hlast : INVALID_BLOCK_INDEX.toNat = 2 ^ 64 - 1 := by decide
      omega
    · have hvalue := congrArg BitVec.toNat (hsame.trans hindex)
      rw [BitVec.toNat_ofNat, BitVec.toNat_ofNat, Nat.mod_eq_of_lt (by omega),
        Nat.mod_eq_of_lt (by omega)] at hvalue
      rw [hkeyStream, ← hvalue]
      rfl

/-- The bytes from a position on are combined with the key stream from there on. -/
theorem decryptBytes_spec {l : LockFile} (hl : Cached AES_encrypt l) (data : List Byte)
    (hpos : l.filePos + data.length ≤ OFF64_MAX) :
    (l.decryptBytes AES_encrypt data).2 =
        KeyStream.crypt (l.keyByte AES_encrypt) l.filePos data ∧
      ∃ keyStream blockIndex, (l.decryptBytes AES_encrypt data).1 =
          { l with
            filePos := l.filePos + data.length
            keyStream := keyStream
            blockIndex := blockIndex } ∧
        Cached AES_encrypt { l with keyStream := keyStream, blockIndex := blockIndex } := by
  induction data generalizing l with
  | nil => exact ⟨rfl, _, _, rfl, hl⟩
  | cons b data ih =>
    rw [List.length_cons] at hpos
    obtain ⟨hbyte, keyStream, blockIndex, heq, hcached⟩ := decryptByte_spec hl (by omega) b
    obtain ⟨hrest, keyStream', blockIndex', heq', hcached'⟩ :=
      ih (l := { l with
        filePos := l.filePos + 1
        keyStream := keyStream
        blockIndex := blockIndex }) hcached (by show l.filePos + 1 + _ ≤ _; omega)
    rw [LockFile.decryptBytes]
    dsimp only
    rw [hbyte, heq]
    dsimp only
    rw [hrest, heq', List.length_cons, Nat.add_comm data.length, ← Nat.add_assoc]
    exact ⟨rfl, _, _, rfl, hcached'⟩

/-- The decoder stands for a plain file `f`, and the header is `front`. -/
structure StandsFor (AES_encrypt : List Byte → List Byte → List Byte) (front : List Byte)
    (l : LockFile) (f : File) : Prop where
  contents : l.file.contents = front ++ KeyStream.crypt (l.keyByte AES_encrypt) 0 f.contents
  dataOffset : l.dataOffset = front.length
  pos : l.file.pos = front.length + f.pos
  filePos : l.filePos = f.pos
  pos_le : front.length + f.pos ≤ OFF64_MAX
  length_le : l.file.contents.length ≤ OFF64_MAX
  cached : Cached AES_encrypt l

variable {front : List Byte} {l : LockFile} {f : File}

theorem StandsFor.read (h : StandsFor AES_encrypt front l f) (numBytes : Nat) :
    (l.read AES_encrypt numBytes).2 = (f.read numBytes).2 ∧
      StandsFor AES_encrypt front (l.read AES_encrypt numBytes).1 (f.read numBytes).1 ∧
      ∃ file filePos keyStream blockIndex, (l.read AES_encrypt numBytes).1 =
        { l with
          file := file
          filePos := filePos
          keyStream := keyStream
          blockIndex := blockIndex } := by
  -- behind the header stands the encrypted text of the plain file
  have hdata : (l.file.contents.drop l.file.pos).take numBytes =
      KeyStream.crypt (l.keyByte AES_encrypt) f.pos ((f.contents.drop f.pos).take numBytes) := by
    rw [h.contents, h.pos, ← List.drop_drop, List.drop_left, KeyStream.drop_crypt,
      KeyStream.take_crypt, Nat.zero_add]
  have hlength : (KeyStream.crypt (l.keyByte AES_encrypt) f.pos
      ((f.contents.drop f.pos).take numBytes)).length =
        ((f.contents.drop f.pos).take numBytes).length := KeyStream.length_crypt _ _ _
  have hfits : front.length + f.pos + ((f.contents.drop f.pos).take numBytes).length ≤ OFF64_MAX := by
    have hle := h.length_le
    have hpos := h.pos_le
    rw [h.contents, List.length_append, KeyStream.length_crypt] at hle
    rw [List.length_take, List.length_drop]
    omega
  -- decrypting takes the same part of the key stream off again
  obtain ⟨hbytes, keyStream, blockIndex, heq, hcached⟩ :=
    decryptBytes_spec (l := { l with file := (l.file.read numBytes).1 }) h.cached
      ((l.file.contents.drop l.file.pos).take numBytes)
      (by rw [hdata, hlength]; show l.filePos + _ ≤ _; rw [h.filePos]; omega)
  rw [hdata] at hbytes heq
  have hplain : (l.read AES_encrypt numBytes).2 = (f.read numBytes).2 := by
    show (LockFile.decryptBytes AES_encrypt { l with file := (l.file.read numBytes).1 }
      ((l.file.contents.drop l.file.pos).take numBytes)).2 = _
    rw [hdata, hbytes]
    show KeyStream.crypt (l.keyByte AES_encrypt) l.filePos _ = _
    rw [h.filePos, KeyStream.crypt_crypt, File.read]
  have hlock : (l.read AES_encrypt numBytes).1 =
      { l with
        file := (l.file.read numBytes).1
        filePos := l.filePos + ((f.contents.drop f.pos).take numBytes).length
        keyStream := keyStream
        blockIndex := blockIndex } := by
    show (LockFile.decryptBytes AES_encrypt { l with file := (l.file.read numBytes).1 }
      ((l.file.contents.drop l.file.pos).take numBytes)).1 = _
    rw [hdata, heq, hlength]
  refine ⟨hplain, ?_, _, _, _, _, hlock⟩
  rw [hlock]
  constructor
  · exact h.contents
  · exact h.dataOffset
  · show l.file.pos + ((l.file.contents.drop l.file.pos).take numBytes).length = _
    rw [hdata, hlength, h.pos, Nat.add_assoc]
    rfl
  · show l.filePos + _ = f.pos + _
    rw [h.filePos]
  · show front.length + (f.pos + _) ≤ _
    rw [← Nat.add_assoc]
    exact hfits
  · exact h.length_le
  · exact hcached

/-- A seek leads to the same place behind the header. -/
theorem StandsFor.target (h : StandsFor AES_encrypt front l f) (offset : Int) (whence : Whence) :
    l.file.target (if whence = .SEEK_SET then l.dataOffset + offset else offset) whence =
      (f.target offset whence).map fun newPos : Int => front.length + newPos := by
  have hlength : l.file.contents.length = front.length + f.contents.length := by
    rw [h.contents, List.length_append, KeyStream.length_crypt]
  cases whence with
  | SEEK_SET => exact congrArg (fun n : Nat => some ((n : Int) + offset)) h.dataOffset
  | SEEK_CUR =>
    show some ((l.file.pos : Int) + offset) = some (front.length + (f.pos + offset))
    rw [h.pos]
    push_cast
    rw [Int.add_assoc]
  | SEEK_END =>
    show some ((l.file.contents.length : Int) + offset) = some (front.length + (f.contents.length + offset))
    rw [hlength]
    push_cast
    rw [Int.add_assoc]
  | other => rfl

theorem StandsFor.lseek (h : StandsFor AES_encrypt front l f) (offset : Int) (whence : Whence) :
    (l.lseek offset whence).2 = (f.lseek (OFF64_MAX - front.length) offset whence).2 ∧
      StandsFor AES_encrypt front (l.lseek offset whence).1
        (f.lseek (OFF64_MAX - front.length) offset whence).1 ∧
      ∃ file filePos, (l.lseek offset whence).1 = { l with file := file, filePos := filePos } := by
  have htarget := h.target offset whence
  have hle := h.pos_le
  have hoffset := h.dataOffset
  have hback : (l.dataOffset : Int) + l.filePos = ((front.length + f.pos : Nat) : Int) := by
    rw [hoffset, h.filePos, Int.natCast_add]
  rw [LockFile.lseek, File.lseek, File.lseek, htarget]
  cases f.target offset whence with
  | none => exact ⟨rfl, h, _, _, rfl⟩
  | some newPos =>
    dsimp only [Option.map_some]
    by_cases hrange : 0 ≤ (front.length : Int) + newPos ∧ front.length + newPos ≤ (OFF64_MAX : Int)
    · rw [if_pos hrange]
      dsimp only
      rw [if_neg (by omega)]
      by_cases hneg : newPos < 0
      · -- in front of the data, from where the file goes back
        rw [if_pos (by omega), if_neg (by omega), hback, File.lseek_set h.pos_le]
        exact ⟨rfl, { h with pos := rfl }, _, _, rfl⟩
      · rw [if_neg (by omega), if_pos (by omega)]
        refine ⟨by omega, ?_, _, _, rfl⟩
        exact { h with
          pos := by show Int.toNat _ = _ + Int.toNat _; omega
          filePos := by show Int.toNat _ = Int.toNat _; omega
          pos_le := by show _ + Int.toNat _ ≤ _; omega }
    · rw [if_neg hrange]
      dsimp only
      rw [if_pos rfl, if_neg (by omega)]
      exact ⟨rfl, h, _, _, rfl⟩

/-- The reads come to everything behind the position. -/
theorem File.readAll_spec (f : File) :
    f.readAll.2 = f.contents.drop f.pos ∧ f.readAll.1.contents = f.contents := by
  induction f using File.readAll.induct with
  | case1 f hmore f' data hrest ih =>
    rw [hrest] at ih
    obtain ⟨hdata, hcontents⟩ := ih
    have hall : (f.read SIG_CALC_BUFFER_SIZE).2 ++
        f.contents.drop (f.pos + (f.read SIG_CALC_BUFFER_SIZE).2.length) = f.contents.drop f.pos := by
      have hprefix := List.take_prefix SIG_CALC_BUFFER_SIZE (f.contents.drop f.pos)
      rw [← List.drop_drop]
      exact (List.prefix_iff_eq_append.mp hprefix)
    rw [File.readAll, dif_pos hmore, hrest]
    exact ⟨(congrArg ((f.read SIG_CALC_BUFFER_SIZE).2 ++ ·) hdata).trans hall, hcontents⟩
  | case2 f hend =>
    have hnil := List.eq_nil_of_length_eq_zero (Nat.eq_zero_of_not_pos hend)
    have hdrop : f.contents.drop f.pos = [] :=
      (List.take_eq_nil_iff.mp hnil).resolve_left (by decide)
    rw [File.readAll, dif_neg hend]
    exact ⟨hdrop.symm, rfl⟩

/-- A session whose signatures are right. -/
structure SignedFile.StandsFor (AES_encrypt HMAC : List Byte → List Byte → List Byte)
    (front : List Byte) (a : SignedFile) (f : File) : Prop where
  lock : ForwardLock.StandsFor AES_encrypt front a.lock f
  header : a.checkHeaderIntegrity HMAC = true
  data : HMAC a.signingKey (KeyStream.crypt (a.lock.keyByte AES_encrypt) 0 f.contents) = a.dataSignature

variable {a : SignedFile}

theorem SignedFile.StandsFor.checkIntegrity
    (h : SignedFile.StandsFor AES_encrypt HMAC front a f) : a.checkIntegrity HMAC = (a, true) := by
  obtain ⟨hlock, hheader, hdata⟩ := h
  have hfront : a.lock.dataOffset ≤ OFF64_MAX := by
    have hle := hlock.pos_le
    rw [hlock.dataOffset]
    omega
  have hback : a.lock.dataOffset + a.lock.filePos = a.lock.file.pos := by
    rw [hlock.dataOffset, hlock.filePos, hlock.pos]
  obtain ⟨hall, hcontents⟩ := File.readAll_spec { a.lock.file with pos := a.lock.dataOffset }
  have hbody : a.lock.file.contents.drop a.lock.dataOffset =
      KeyStream.crypt (a.lock.keyByte AES_encrypt) 0 f.contents := by
    rw [hlock.contents, hlock.dataOffset, List.drop_left]
  have hpos : a.lock.file.pos ≤ OFF64_MAX := by
    rw [hlock.pos]
    exact hlock.pos_le
  rw [SignedFile.checkIntegrity, if_pos hheader, SignedFile.checkDataIntegrity,
    File.lseek_set hfront]
  dsimp only
  rw [if_neg (not_not.mpr rfl), hall, hbody, hdata, ← Int.natCast_add, hback, File.lseek_set hpos,
    hcontents, beq_self_eq_true]

/-- Whatever is asked, the response is that of the plain file. -/
theorem SignedFile.StandsFor.answer (h : SignedFile.StandsFor AES_encrypt HMAC front a f)
    (request : Request) :
    (a.answer AES_encrypt HMAC request).2 = (f.answer (OFF64_MAX - front.length) request).2 ∧
      SignedFile.StandsFor AES_encrypt HMAC front (a.answer AES_encrypt HMAC request).1
        (f.answer (OFF64_MAX - front.length) request).1 := by
  cases request with
  | read numBytes =>
    obtain ⟨hdata, hlock, _, _, _, _, heq⟩ := h.lock.read numBytes
    refine ⟨congrArg Response.data hdata, hlock, ?_, ?_⟩
    · show SignedFile.checkHeaderIntegrity HMAC
        { a with lock := (a.lock.read AES_encrypt numBytes).1 } = true
      rw [heq]
      exact h.header
    · show HMAC a.signingKey (KeyStream.crypt
        ((a.lock.read AES_encrypt numBytes).1.keyByte AES_encrypt) 0 f.contents) = a.dataSignature
      rw [heq]
      exact h.data
  | lseek offset whence =>
    obtain ⟨hplace, hlock, _, _, heq⟩ := h.lock.lseek offset whence
    have hcontents : (f.lseek (OFF64_MAX - front.length) offset whence).1.contents = f.contents := by
      rw [File.lseek]
      cases f.target offset whence with
      | none => rfl
      | some newPos =>
        dsimp only
        split <;> rfl
    refine ⟨congrArg Response.position hplace, hlock, ?_, ?_⟩
    · show SignedFile.checkHeaderIntegrity HMAC { a with lock := (a.lock.lseek offset whence).1 } = true
      rw [heq]
      exact h.header
    · show HMAC a.signingKey (KeyStream.crypt ((a.lock.lseek offset whence).1.keyByte AES_encrypt) 0
        (f.lseek (OFF64_MAX - front.length) offset whence).1.contents) = a.dataSignature
      rw [heq, hcontents]
      exact h.data
  | checkIntegrity =>
    show Response.integrity (a.checkIntegrity HMAC).2 = .integrity true ∧
      SignedFile.StandsFor AES_encrypt HMAC front (a.checkIntegrity HMAC).1 f
    rw [h.checkIntegrity]
    exact ⟨rfl, h⟩

theorem SignedFile.StandsFor.responses (h : SignedFile.StandsFor AES_encrypt HMAC front a f)
    (requests : List Request) :
    ForwardLock.responses (SignedFile.answer AES_encrypt HMAC) a requests =
      ForwardLock.responses (File.answer (OFF64_MAX - front.length)) f requests := by
  induction requests generalizing a f with
  | nil => rfl
  | cons request requests ih =>
    obtain ⟨hresponse, hnext⟩ := h.answer request
    rw [ForwardLock.responses, ForwardLock.responses, hresponse, ih hnext]

end

/-! ### The internal format -/

/-- The padded key, and behind it the initialization vector. -/
theorem decryptKey_encryptKey {AES_cbc_encrypt AES_cbc_decrypt : List Byte → List Byte → List Byte}
    (hcipher : KeyCipher AES_cbc_encrypt AES_cbc_decrypt) {sessionKey initVector : List Byte}
    (hkey : sessionKey.length = KEY_SIZE) (hvector : initVector.length = AES_BLOCK_SIZE) :
    (encryptKey AES_cbc_encrypt sessionKey initVector).length = getEncryptedKeyLength KEY_SIZE ∧
      decryptKey AES_cbc_decrypt (encryptKey AES_cbc_encrypt sessionKey initVector) KEY_SIZE =
        some sessionKey := by
  have hpadding : AES_BLOCK_SIZE - sessionKey.length % AES_BLOCK_SIZE = AES_BLOCK_SIZE := by
    rw [hkey]
    rfl
  have hpadded : (sessionKey ++
      List.replicate AES_BLOCK_SIZE (BitVec.ofNat 8 AES_BLOCK_SIZE)).length = 2 * AES_BLOCK_SIZE := by
    rw [List.length_append, List.length_replicate, hkey]
    rfl
  have hdvd : AES_BLOCK_SIZE ∣ (sessionKey ++
      List.replicate AES_BLOCK_SIZE (BitVec.ofNat 8 AES_BLOCK_SIZE)).length := by
    rw [hpadded]
    exact Nat.dvd_mul_left _ _
  have hencrypted := (hcipher.length initVector _ hdvd).trans hpadded
  have hvalid : validatePadding (sessionKey ++
      List.replicate AES_BLOCK_SIZE (BitVec.ofNat 8 AES_BLOCK_SIZE)) KEY_SIZE = true := by
    rw [validatePadding, ← hkey, List.drop_left, hpadding,
      List.take_of_length_le (by rw [List.length_replicate]), decide_eq_true_eq]
  rw [encryptKey, hpadding]
  constructor
  · rw [List.length_append, hencrypted, hvector]
    rfl
  · rw [decryptKey, List.length_append, hvector, Nat.add_sub_cancel]
    rw [List.drop_left, List.take_left, List.take_of_length_le (Nat.le_of_eq hvector),
      hcipher.decrypt _ _ hdvd, if_pos hvalid, ← hkey, List.take_left]

theorem readExactly_append (front data rest : List Byte) :
    LockFile.readExactly ⟨front ++ data ++ rest, front.length⟩ data.length =
      some (⟨front ++ data ++ rest, (front ++ data).length⟩, data) := by
  have hread : ((front ++ data ++ rest).drop front.length).take data.length = data := by
    rw [List.append_assoc, List.drop_left, List.take_left]
  rw [LockFile.readExactly, File.read]
  dsimp only
  rw [hread, if_pos rfl, List.length_append]

/-- The parts of a header are read one after the other. -/
theorem SignedFile.attach_eq (AES_encrypt : List Byte → List Byte → List Byte)
    {AES_cbc_decrypt : List Byte → List Byte → List Byte} {length : Byte}
    {contentType key sessionKey : List Byte} (dataSignature headerSignature data : List Byte)
    (hlength : length.toNat = contentType.length)
    (hkeyLength : key.length = getEncryptedKeyLength KEY_SIZE)
    (hdata : dataSignature.length = SHA1_HASH_SIZE)
    (hheader : headerSignature.length = SHA1_HASH_SIZE)
    (hkey : decryptKey AES_cbc_decrypt key KEY_SIZE = some sessionKey) :
    SignedFile.attach AES_encrypt AES_cbc_decrypt ⟨topHeaderTemplate ++ [length] ++ contentType ++
        key ++ dataSignature ++ headerSignature ++ data, 0⟩ =
      some
        { lock :=
            { file := ⟨topHeaderTemplate ++ [length] ++ contentType ++ key ++ dataSignature ++
                headerSignature ++ data, (topHeaderTemplate ++ [length] ++ contentType ++ key ++
                dataSignature ++ headerSignature).length⟩
              contentType := contentType
              encryptedSessionKey := key
              dataOffset := contentType.length + key.length + TOP_HEADER_SIZE + 2 * SHA1_HASH_SIZE
              filePos := 0
              encryptionKey := (deriveKeys AES_encrypt sessionKey).1
              keyStream := []
              blockIndex := INVALID_BLOCK_INDEX }
          topHeader := topHeaderTemplate ++ [length]
          dataSignature := dataSignature
          headerSignature := headerSignature
          signingKey := (deriveKeys AES_encrypt sessionKey).2 } := by
  -- the decoder reads the five parts of the header in order
  have htopHeader := readExactly_append [] (topHeaderTemplate ++ [length])
    (contentType ++ key ++ dataSignature ++ headerSignature ++ data)
  have hcontentType := readExactly_append (topHeaderTemplate ++ [length]) contentType
    (key ++ dataSignature ++ headerSignature ++ data)
  have hsessionKey := readExactly_append (topHeaderTemplate ++ [length] ++ contentType) key
    (dataSignature ++ headerSignature ++ data)
  have hdataSignature := readExactly_append (topHeaderTemplate ++ [length] ++ contentType ++ key)
    dataSignature (headerSignature ++ data)
  have hheaderSignature := readExactly_append
    (topHeaderTemplate ++ [length] ++ contentType ++ key ++ dataSignature) headerSignature data
  simp only [← List.append_assoc, List.nil_append] at htopHeader hcontentType hsessionKey
  simp only [← List.append_assoc] at hdataSignature hheaderSignature
  have hsize : (topHeaderTemplate ++ [length]).length = TOP_HEADER_SIZE := rfl
  have htemplate : (topHeaderTemplate ++ [length]).take topHeaderTemplate.length =
      topHeaderTemplate := List.take_left' rfl
  have htypeLength : ((topHeaderTemplate ++ [length]).getD 7 0).toNat = contentType.length := hlength
  rw [hsize, List.length_nil] at htopHeader
  rw [hkeyLength] at hsessionKey
  rw [hdata] at hdataSignature
  rw [hheader] at hheaderSignature
  rw [SignedFile.attach, htopHeader]
  simp only [Option.bind_eq_bind, Option.bind_some]
  rw [if_neg (not_not.mpr htemplate), htypeLength, ← hsize, hcontentType, Option.bind_some,
    hsessionKey, Option.bind_some, hdataSignature, Option.bind_some, hheaderSignature,
    Option.bind_some, hkey, Option.bind_some]

/-- The length of the header of the internal format. -/
def headerLength (contentType : List Byte) : Nat :=
  TOP_HEADER_SIZE + contentType.length + getEncryptedKeyLength KEY_SIZE + 2 * SHA1_HASH_SIZE

section

variable {AES_encrypt HMAC AES_cbc_encrypt AES_cbc_decrypt : List Byte → List Byte → List Byte}
variable {sessionKey initVector contentType body : List Byte}

variable (AES_encrypt body) in
/-- A file in the internal format stands for the body. -/
theorem attach_lockedContents (hcipher : KeyCipher AES_cbc_encrypt AES_cbc_decrypt)
    (hHMAC : ∀ key message, (HMAC key message).length = SHA1_HASH_SIZE)
    (hkey : sessionKey.length = KEY_SIZE) (hvector : initVector.length = AES_BLOCK_SIZE)
    (htype : contentType.length ≤ UCHAR_MAX)
    (hsize : headerLength contentType + body.length ≤ OFF64_MAX) :
    ∃ a front, SignedFile.attach AES_encrypt AES_cbc_decrypt
        ⟨lockedContents AES_encrypt HMAC AES_cbc_encrypt sessionKey initVector contentType body, 0⟩ =
          some a ∧ a.lock.contentType = contentType ∧ front.length = headerLength contentType ∧
      SignedFile.StandsFor AES_encrypt HMAC front a ⟨body, 0⟩ := by
  obtain ⟨hkeyLength, hdecrypt⟩ := decryptKey_encryptKey hcipher hkey hvector
  have hlength : (BitVec.ofNat 8 contentType.length).toNat = contentType.length := by
    rw [BitVec.toNat_ofNat, Nat.mod_eq_of_lt]
    rw [UCHAR_MAX] at htype
    omega
  -- the parts of the file, as the converter writes them
  let key := encryptKey AES_cbc_encrypt sessionKey initVector
  let signingKey := (deriveKeys AES_encrypt sessionKey).2
  let front := topHeaderTemplate ++ [BitVec.ofNat 8 contentType.length] ++ contentType ++ key
  let data := KeyStream.crypt (keyByte AES_encrypt (deriveKeys AES_encrypt sessionKey).1
    (key.take AES_BLOCK_SIZE)) 0 body
  let dataSignature := HMAC signingKey data
  let headerSignature := HMAC signingKey (front ++ dataSignature)
  have hattach := SignedFile.attach_eq AES_encrypt dataSignature headerSignature data hlength
    hkeyLength (hHMAC _ _) (hHMAC _ _) hdecrypt
  have hfront : (front ++ dataSignature ++ headerSignature).length = headerLength contentType := by
    simp only [front, key, List.length_append, hkeyLength, dataSignature, headerSignature, hHMAC,
      headerLength]
    show TOP_HEADER_SIZE + _ + _ + _ + _ = _
    omega
  have hcontents : lockedContents AES_encrypt HMAC AES_cbc_encrypt sessionKey initVector contentType
      body = front ++ dataSignature ++ headerSignature ++ data := rfl
  refine ⟨_, front ++ dataSignature ++ headerSignature, hattach, rfl, hfront, ?_⟩
  refine ⟨⟨rfl, ?_, rfl, rfl, ?_, ?_, .inl rfl⟩, ?_, rfl⟩
  · rw [hfront, headerLength]
    dsimp only
    rw [hkeyLength]
    omega
  · rw [hfront]
    show _ + 0 ≤ _
    omega
  · show (front ++ dataSignature ++ headerSignature ++ data).length ≤ _
    rw [List.length_append, hfront, KeyStream.length_crypt]
    exact hsize
  · exact beq_self_eq_true _

variable {s t u : Session} {front epilogue : List Byte} {pieces : List (List Byte)}

theorem inFront_openSession (hopen : openSession AES_encrypt AES_cbc_encrypt (some sessionKey)
    (some initVector) = .ok s) : s.InFront s := by
  rw [Session.openSession_eq hopen]
  exact ⟨.inl rfl, ⟨_, _, _, _, _, _, _, rfl⟩, .inl ⟨rfl, List.mem_cons_self⟩⟩

/-- What is read from the file of a conversion, whatever the order of the requests. -/
def Restored (AES_encrypt HMAC AES_cbc_decrypt : List Byte → List Byte → List Byte)
    (contentType body contents : List Byte) : Prop :=
  ∃ a, SignedFile.attach AES_encrypt AES_cbc_decrypt ⟨contents, 0⟩ = some a ∧
    a.lock.contentType = contentType ∧
    ∀ requests, responses (SignedFile.answer AES_encrypt HMAC) a requests =
      responses (File.answer (OFF64_MAX - headerLength contentType)) ⟨body, 0⟩ requests

theorem convertOpenFile_restored
    (hopen : openSession AES_encrypt AES_cbc_encrypt (some sessionKey) (some initVector) = .ok s)
    (hcipher : KeyCipher AES_cbc_encrypt AES_cbc_decrypt)
    (hHMAC : ∀ key message, (HMAC key message).length = SHA1_HASH_SIZE)
    (hkey : sessionKey.length = KEY_SIZE) (hvector : initVector.length = AES_BLOCK_SIZE)
    (hopens : s.Opens contentType t) (hmessage : s.pushChars AES_encrypt pieces.flatten = (u, .OK))
    (hended : Session.Ended AES_encrypt t body u)
    (hsize : headerLength contentType + body.length ≤ OFF64_MAX) :
    ∃ contents pos, convertOpenFile AES_encrypt HMAC AES_cbc_encrypt (some sessionKey)
        (some initVector) pieces ⟨[], 0⟩ = (.OK, ⟨contents, pos⟩) ∧
      Restored AES_encrypt HMAC AES_cbc_decrypt contentType body contents := by
  obtain ⟨hkeyLength, _⟩ := decryptKey_encryptKey hcipher hkey hvector
  obtain ⟨pos, hfile⟩ := Session.convertOpenFile_eq hopen hopens hmessage hended hHMAC (by
    rw [Session.openSession_eq hopen]
    exact hkeyLength)
  obtain ⟨a, front, hattach, htype, hfront, hstands⟩ := attach_lockedContents
    AES_encrypt body hcipher hHMAC hkey hvector hopens.contentType_le hsize
  refine ⟨_, pos, hfile, a, hattach, htype, fun requests => ?_⟩
  rw [← hfront]
  exact hstands.responses requests

/-- A message with a binary body is read as the body, whatever the pieces it was converted in. -/
theorem convertOpenFile_binary
    (hopen : openSession AES_encrypt AES_cbc_encrypt (some sessionKey) (some initVector) = .ok s)
    (hcipher : KeyCipher AES_cbc_encrypt AES_cbc_decrypt)
    (hHMAC : ∀ key message, (HMAC key message).length = SHA1_HASH_SIZE)
    (hkey : sessionKey.length = KEY_SIZE) (hvector : initVector.length = AES_BLOCK_SIZE)
    (hfront : Session.Fronts AES_encrypt s front t)
    (hbinary : t.parserState = .WantsBinaryEncodedData) (hfree : Delimiter.Free t.delimiter body)
    (hsize : headerLength (t.contentType.getD []) + body.length ≤ OFF64_MAX)
    (hpieces : pieces.flatten = front ++ (body ++ t.delimiter ++ [DASH, DASH] ++ epilogue)) :
    ∃ contents pos, convertOpenFile AES_encrypt HMAC AES_cbc_encrypt (some sessionKey)
        (some initVector) pieces ⟨[], 0⟩ = (.OK, ⟨contents, pos⟩) ∧
      Restored AES_encrypt HMAC AES_cbc_decrypt (t.contentType.getD []) body contents := by
  obtain ⟨contentType, hopens⟩ := hfront.opens (inFront_openSession hopen)
  have hfields : t.contentType = some contentType ∧ t.scannerState = .WantsByte1 ∧
      t.delimiterMatchPos = s.delimiterMatchPos := by
    obtain ⟨_, _, _, _, _, _, _, _, rfl⟩ := hopens
    exact ⟨rfl, rfl, rfl⟩
  obtain ⟨htype, hscanner, hmatched⟩ := hfields
  have hbody : t.AtBody :=
    { parserState := hbinary
      scannerState := hscanner
      delimiterMatchPos := by
        rw [hmatched, Session.openSession_eq hopen]
      delimiter := hopens.delimiter }
  obtain ⟨u, hpushed, hended⟩ := Session.pushChars_body AES_encrypt hbody hfree epilogue
  rw [htype, Option.getD_some] at hsize ⊢
  refine convertOpenFile_restored hopen hcipher hHMAC hkey hvector hopens ?_ hended hsize
  rw [hpieces, Session.pushChars_trans hfront.pushed, hpushed]

def partBoundary : List Byte := ['p', 'a', 'r', 't', '-', '7'].map chr

/-- A line that is not looked at, and one with the content type. -/
def pictureLines : List Byte :=
  ['X', '-', 'I', 'd', ':', ' ', '1'].map chr ++ [CR, LF] ++
    (['C', 'o', 'n', 't', 'e', 'n', 't', '-', 'T', 'y', 'p', 'e', ':', ' ', 'I', 'm', 'a', 'g', 'e',
      '/', 'P', 'N', 'G'].map chr ++ [CR, LF])

def imagePng : List Byte := ['i', 'm', 'a', 'g', 'e', '/', 'p', 'n', 'g'].map chr

theorem boundary_part : Session.Boundary partBoundary := ⟨by decide, by decide, by decide, by decide⟩

theorem headerLines_picture : Session.HeaderLines (some imagePng) .Undefined pictureLines := by
  have hid : Session.HeaderName (['X', '-', 'I', 'd'].map chr) (['x', '-', 'i', 'd'].map chr) :=
    ⟨by decide, by decide, by decide⟩
  have htype : Session.HeaderName
      (['C', 'o', 'n', 't', 'e', 'n', 't', '-', 'T', 'y', 'p', 'e'].map chr)
      (strContent ++ strType) := ⟨by decide, by decide, by decide⟩
  have hline : Session.HeaderLines none .Undefined
      ([] ++ (['X', '-', 'I', 'd'].map chr ++ ([chr ':'] ++ ([SPACE, chr '1'] ++ [CR, LF])))) :=
    .other .nil hid ⟨by decide, by decide⟩ (by decide)
  have hvalue : ∀ ch ∈ ['I', 'm', 'a', 'g', 'e', '/', 'P', 'N', 'G'].map chr,
      isMimeHeaderValueChar ch := by decide
  exact .contentType hline htype (by decide) hvalue

/-- The body begins like the delimiter, and the second piece begins within the content type. -/
theorem convertOpenFile_binary_twoPieces :
    ∃ contents pos, convertOpenFile (fun _ block => block) (fun _ _ => List.replicate 20 0)
        (fun _ data => data) (some (List.replicate 16 7)) (some (List.replicate 16 9))
        [(Session.frontText partBoundary pictureLines).take 30,
          (Session.frontText partBoundary pictureLines).drop 30 ++ ([CR, LF, DASH, chr 'Y'] ++
            ([CR, LF, DASH, DASH] ++ partBoundary) ++ [DASH, DASH] ++ [CR, LF])] ⟨[], 0⟩ =
          (.OK, ⟨contents, pos⟩) ∧
      Restored (fun _ block => block) (fun _ _ => List.replicate 20 0) (fun _ data => data)
        imagePng [CR, LF, DASH, chr 'Y'] contents := by
  obtain ⟨t, hfront, hdelimiter, htype, hstate⟩ :=
    Session.fronts_of_text (fun _ block => block) (s :=
      { encryptedSessionKey := _, encryptionKey := _, signingKey := _, counter := _ }) rfl rfl rfl rfl
      boundary_part headerLines_picture (by decide) (by decide)
  have h := @convertOpenFile_binary (fun _ block => block) (fun _ _ => List.replicate 20 0)
    (fun _ data => data) (fun _ data => data) (List.replicate 16 7) (List.replicate 16 9)
    [CR, LF, DASH, chr 'Y'] _ t (Session.frontText partBoundary pictureLines) [CR, LF]
    [(Session.frontText partBoundary pictureLines).take 30,
      (Session.frontText partBoundary pictureLines).drop 30 ++ ([CR, LF, DASH, chr 'Y'] ++
        ([CR, LF, DASH, DASH] ++ partBoundary) ++ [DASH, DASH] ++ [CR, LF])] rfl
    ⟨fun _ _ _ => rfl, fun _ _ _ => rfl⟩ (fun _ _ => rfl) rfl rfl hfront hstate
    (by rw [hdelimiter]; decide) (by rw [htype]; decide) (by rw [hdelimiter]; decide)
  rw [htype] at h
  exact h

end

end MediaFramework.ForwardLock
