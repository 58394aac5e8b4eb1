import MediaFramework.ClearKey.CryptoPlugin

/-!
# What a decryption does to the memory

An accepted call reads and writes each byte of two areas once, and gives the clear parts as they are
and the encrypted parts with one key stream.
-/

namespace MediaFramework.ClearKey

variable {p q source destination : Pointer} {m m' m'' : Accessed} {content content' : List Byte}
variable {i j n k : Nat}

/-! ### Pointers -/

theorem Pointer.add_zero (p : Pointer) : p.add 0 = p := by
  simp [Pointer.add]

theorem Pointer.add_add (p : Pointer) (m n : Nat) : (p.add m).add n = p.add (m + n) := by
  simp [Pointer.add, BitVec.ofNat_add, BitVec.add_assoc]

theorem Pointer.add_inj (hi : i < 2 ^ 64) (hj : j < 2 ^ 64) : p.add i = p.add j ↔ i = j := by
  refine ⟨fun h => ?_, fun h => h ▸ rfl⟩
  have hposition := congrArg (fun p : Pointer => p.position.toNat) h
  simp only [Pointer.add, BitVec.toNat_add, BitVec.toNat_ofNat] at hposition
  omega

@[simp]
theorem Pointer.mem_range : q ∈ p.range n ↔ ∃ i < n, p.add i = q := by
  simp [Pointer.range]

theorem Pointer.range_add (p : Pointer) (m n : Nat) :
    p.range (m + n) = p.range m ++ (p.add m).range n := by
  simp [Pointer.range, List.range_add, Function.comp_def, Pointer.add_add]

theorem load_add (memory : Contents) (p : Pointer) (m n : Nat) :
    Areas.load memory p.add (m + n) =
      Areas.load memory p.add m ++ Areas.load memory (p.add m).add n := by
  have hback : (fun i => p.add (m + i)) = (p.add m).add := by
    funext i
    exact (p.add_add m i).symm
  rw [Areas.load_add, hback]

/-! ### Moves -/

/-- What the areas and what stands in them have to do with each other when `content` is moved. -/
structure Moved (source destination : Pointer) (content : List Byte) (m m' : Accessed) : Prop where
  reads : m'.reads = m.reads ++ source.range content.length
  writes : m'.writes = m.writes ++ destination.range content.length
  outside : ∀ p ∉ destination.range content.length, m'.memory p = m.memory p
  inside : Areas.load m'.memory destination.add content.length = content

theorem Moved.nil (source destination : Pointer) (m : Accessed) : Moved source destination [] m m :=
  ⟨(List.append_nil _).symm, (List.append_nil _).symm, fun _ _ => rfl, rfl⟩

theorem moved_copy (source destination : Pointer) (content : List Byte) (m : Accessed)
    (hlength : content.length < 2 ^ 64) :
    Moved source destination content m (m.copy destination source content.length content) := by
  refine ⟨rfl, rfl, fun p hp => Areas.store_of_ne fun i hi heq => ?_, Areas.load_store ?_⟩
  · exact hp (Pointer.mem_range.mpr ⟨i, hi, heq⟩)
  · exact fun i hi j hj heq => (Pointer.add_inj (hi.trans hlength) (hj.trans hlength)).mp heq

/-- One move after the other. -/
theorem Moved.trans (h : Moved source destination content m m')
    (h' : Moved (source.add content.length) (destination.add content.length) content' m' m'')
    (hlength : content.length + content'.length < 2 ^ 64) :
    Moved source destination (content ++ content') m m'' := by
  have hlater : ∀ i < content.length,
      destination.add i ∉ (destination.add content.length).range content'.length := by
    rintro i hi hmem
    obtain ⟨j, hj, heq⟩ := Pointer.mem_range.mp hmem
    rw [Pointer.add_add, Pointer.add_inj (by omega) (by omega)] at heq
    omega
  constructor
  · rw [h'.reads, h.reads, List.length_append, Pointer.range_add, List.append_assoc]
  · rw [h'.writes, h.writes, List.length_append, Pointer.range_add, List.append_assoc]
  · intro p hp
    rw [List.length_append, Pointer.range_add, List.mem_append, not_or] at hp
    rw [h'.outside p hp.2, h.outside p hp.1]
  · rw [List.length_append, load_add, h'.inside,
      Areas.load_congr fun i hi => h'.outside _ (hlater i hi), h.inside]

/-- What has become of the areas where they have `n` bytes. -/
theorem Moved.effects (h : Moved source destination content m m') (hlength : content.length = n) :
    m'.reads = m.reads ++ source.range n ∧ m'.writes = m.writes ++ destination.range n ∧
      (∀ p ∉ destination.range n, m'.memory p = m.memory p) ∧
      Areas.load m'.memory destination.add n = content := by
  subst hlength
  exact ⟨h.reads, h.writes, h.outside, h.inside⟩

/-- No byte is in both areas. -/
def Apart (source destination : Pointer) (n : Nat) : Prop :=
  ∀ p ∈ source.range n, p ∉ destination.range n

theorem Apart.left (h : Apart source destination (n + k)) : Apart source destination n := by
  intro p hp hp'
  refine h p ?_ ?_ <;> rw [Pointer.range_add]
  · exact List.mem_append_left _ hp
  · exact List.mem_append_left _ hp'

theorem Apart.right (h : Apart source destination (n + k)) :
    Apart (source.add n) (destination.add n) k := by
  intro p hp hp'
  refine h p ?_ ?_ <;> rw [Pointer.range_add]
  · exact List.mem_append_right _ hp
  · exact List.mem_append_right _ hp'

/-- What is still to be read has not been written to. -/
theorem Moved.load_rest (h : Moved source destination content m m')
    (hapart : Apart source destination (content.length + k)) :
    Areas.load m'.memory (source.add content.length).add k =
      Areas.load m.memory (source.add content.length).add k := by
  refine Areas.load_congr fun i hi => h.outside _ fun hmem => ?_
  refine hapart ((source.add content.length).add i) ?_ ?_ <;> rw [Pointer.range_add]
  · exact List.mem_append_right _ (Pointer.mem_range.mpr ⟨i, hi, rfl⟩)
  · exact List.mem_append_left _ hmem

/-! ### Subsamples -/

/-- How many bytes the subsamples have. -/
def totalSize (subSamples : List SubSample) : Nat := (subSamples.map SubSample.size).sum

/-- What `AES_ctr128_encrypt` is relied on for: `state` is where it has come to in the key stream. -/
structure CounterMode (AES_ctr128_encrypt : CounterEncrypt) (keyByte : List Byte → List Byte → Nat → Byte)
    (state : List Byte → List Byte → Nat → CounterState) : Prop where
  start : ∀ key iv, state key iv 0 = ⟨iv, List.replicate kBlockSize 0, 0⟩
  encrypt : ∀ key iv n text, AES_ctr128_encrypt key (state key iv n) text =
    (KeyStream.crypt (keyByte key iv) n text, state key iv (n + text.length))

/-- The clear parts as they are, and the encrypted parts with one key stream. -/
def decrypted (keyByte : Nat → Byte) : List SubSample → Nat → List Byte → List Byte
  | [], _, _ => []
  | subSample :: subSamples, n, text =>
    let numBytesOfClearData := subSample.numBytesOfClearData.toNat
    let numBytesOfEncryptedData := subSample.numBytesOfEncryptedData.toNat
    text.take numBytesOfClearData ++
      KeyStream.crypt keyByte n ((text.drop numBytesOfClearData).take numBytesOfEncryptedData) ++
      decrypted keyByte subSamples (n + numBytesOfEncryptedData) (text.drop subSample.size)

theorem decrypted_append {keyByte : Nat → Byte} {subSample : SubSample} {subSamples : List SubSample}
    {clear encrypted rest : List Byte} (hclear : clear.length = subSample.numBytesOfClearData.toNat)
    (hencrypted : encrypted.length = subSample.numBytesOfEncryptedData.toNat) :
    decrypted keyByte (subSample :: subSamples) n (clear ++ encrypted ++ rest) =
      clear ++ KeyStream.crypt keyByte n encrypted ++
        decrypted keyByte subSamples (n + subSample.numBytesOfEncryptedData.toNat) rest := by
  have hsize : (clear ++ encrypted).length = subSample.size := by
    rw [List.length_append, hclear, hencrypted, SubSample.size]
  rw [decrypted, List.drop_left' hsize, List.append_assoc clear, List.take_left' hclear,
    List.drop_left' hclear, List.take_left' hencrypted]

variable {AES_ctr128_encrypt : CounterEncrypt} {keyByte : List Byte → List Byte → Nat → Byte}
variable {state : List Byte → List Byte → Nat → CounterState} {key iv : List Byte}
variable {subSample : SubSample} {subSamples : List SubSample} {offset : Nat}

theorem moved_memcpy (source destination : Pointer) (m : Accessed) (hn : n < 2 ^ 64) :
    Moved source destination (Areas.load m.memory source.add n) m (m.memcpy destination source n) := by
  have hcopy := moved_copy source destination (Areas.load m.memory source.add n) m (by simpa)
  rwa [Areas.length_load] at hcopy

variable (source destination subSample m key iv n offset) in
theorem decryptSubSample_moved (hAES : CounterMode AES_ctr128_encrypt keyByte state) :
    ∃ m' content, decryptSubSample AES_ctr128_encrypt key source destination subSample m
        (state key iv n) offset =
          (m', state key iv (n + subSample.numBytesOfEncryptedData.toNat), offset + subSample.size) ∧
      content.length = subSample.size ∧
      Moved (source.add offset) (destination.add offset) content m m' ∧
      (Apart (source.add offset) (destination.add offset) subSample.size →
        content =
          Areas.load m.memory (source.add offset).add subSample.numBytesOfClearData.toNat ++
            KeyStream.crypt (keyByte key iv) n
              (Areas.load m.memory
                ((source.add offset).add subSample.numBytesOfClearData.toNat).add
                subSample.numBytesOfEncryptedData.toNat)) := by
  have hclear := subSample.numBytesOfClearData.isLt
  have hencrypted := subSample.numBytesOfEncryptedData.isLt
  rw [decryptSubSample, SubSample.size]
  dsimp only
  generalize subSample.numBytesOfClearData.toNat = c at hclear ⊢
  generalize subSample.numBytesOfEncryptedData.toNat = e at hencrypted ⊢
  -- the bytes in the clear, of which there may be none
  have hfirst : Moved (source.add offset) (destination.add offset)
      (Areas.load m.memory (source.add offset).add c) m
      (if c > 0 then m.memcpy (destination.add offset) (source.add offset) c else m) := by
    split
    · exact moved_memcpy _ _ m (by omega)
    · next hnone =>
      obtain rfl : c = 0 := Nat.eq_zero_of_not_pos hnone
      exact Moved.nil _ _ m
  generalize (if c > 0 then m.memcpy (destination.add offset) (source.add offset) c else m) = m₁
    at hfirst ⊢
  rw [← Pointer.add_add source, ← Pointer.add_add destination, hAES.encrypt, Areas.length_load]
  have hlength : (KeyStream.crypt (keyByte key iv) n
      (Areas.load m₁.memory ((source.add offset).add c).add e)).length = e := by
    rw [KeyStream.length_crypt, Areas.length_load]
  -- the encrypted bytes behind them, read after the first have been written
  have hsecond : ∃ m₂, (if e > 0 then
        (m₁.copy ((destination.add offset).add c) ((source.add offset).add c) e
          (KeyStream.crypt (keyByte key iv) n
            (Areas.load m₁.memory ((source.add offset).add c).add e)),
          state key iv (n + e), offset + c + e)
      else (m₁, state key iv n, offset + c)) = (m₂, state key iv (n + e), offset + c + e) ∧
      Moved ((source.add offset).add c) ((destination.add offset).add c)
        (KeyStream.crypt (keyByte key iv) n
          (Areas.load m₁.memory ((source.add offset).add c).add e)) m₁ m₂ := by
    split
    · have hcopy := moved_copy ((source.add offset).add c) ((destination.add offset).add c)
        (KeyStream.crypt (keyByte key iv) n (Areas.load m₁.memory ((source.add offset).add c).add e))
        m₁ (by omega)
      rw [hlength] at hcopy
      exact ⟨_, rfl, hcopy⟩
    · next hnone =>
      obtain rfl : e = 0 := Nat.eq_zero_of_not_pos hnone
      exact ⟨m₁, rfl, Moved.nil _ _ m₁⟩
  obtain ⟨m₂, hmoves, hsecond⟩ := hsecond
  rw [hmoves, Nat.add_assoc]
  rw [← Areas.length_load m.memory (source.add offset).add c] at hsecond
  have hboth := hfirst.trans hsecond (by rw [Areas.length_load, hlength]; omega)
  refine ⟨m₂, _, rfl, ?_, hboth, fun hapart => ?_⟩
  · rw [List.length_append, Areas.length_load, hlength]
  -- apart from the destination, these are still those of the source
  · have hrest := hfirst.load_rest (k := e) (by rwa [Areas.length_load])
    rw [Areas.length_load] at hrest ⊢
    rw [hrest]

variable (source destination m key iv n offset) in
/-- The text is what stands in the source. -/
theorem decryptSubSamples_moved (hAES : CounterMode AES_ctr128_encrypt keyByte state)
    (hsize : totalSize subSamples < 2 ^ 64) :
    ∃ m' content, decryptSubSamples AES_ctr128_encrypt key source destination subSamples m
        (state key iv n) offset = (m', offset + totalSize subSamples) ∧
      content.length = totalSize subSamples ∧
      Moved (source.add offset) (destination.add offset) content m m' ∧
      (Apart (source.add offset) (destination.add offset) (totalSize subSamples) →
        content = decrypted (keyByte key iv) subSamples n
          (Areas.load m.memory (source.add offset).add (totalSize subSamples))) := by
  induction subSamples generalizing m n offset with
  | nil => exact ⟨m, [], rfl, rfl, Moved.nil _ _ m, fun _ => rfl⟩
  | cons subSample subSamples ih =>
    have htotal : totalSize (subSample :: subSamples) = subSample.size + totalSize subSamples :=
      List.sum_cons
    rw [htotal] at hsize ⊢
    obtain ⟨m₁, first, hfirst, hlength, hmoved, hcontent⟩ :=
      decryptSubSample_moved source destination m n key iv subSample offset hAES
    obtain ⟨m', rest, hrest, hlength', hmoved', hcontent'⟩ := ih m₁
      (n + subSample.numBytesOfEncryptedData.toNat) (offset + subSample.size) (by omega)
    rw [← Pointer.add_add source, ← Pointer.add_add destination, ← hlength] at hmoved' hcontent'
    refine ⟨m', first ++ rest, ?_, ?_, hmoved.trans hmoved' (by omega), fun hapart => ?_⟩
    · rw [decryptSubSamples, hfirst]
      dsimp only
      rw [hrest, Nat.add_assoc]
    · rw [List.length_append, hlength, hlength']
    · rw [← hlength] at hapart
      have hlater := hmoved.load_rest hapart
      rw [hlength] at hlater
      rw [hcontent' hapart.right, hlength, hlater, hcontent (hlength ▸ hapart.left), load_add,
        SubSample.size, load_add, decrypted_append (Areas.length_load _ _ _) (Areas.length_load _ _ _)]

variable (source destination m offset) in
theorem copySubSamples_moved (hsize : totalSize subSamples < 2 ^ 64)
    (hclear : ∀ subSample ∈ subSamples, subSample.numBytesOfEncryptedData = 0) :
    ∃ m' content, copySubSamples destination source subSamples m offset =
        (m', offset + totalSize subSamples) ∧
      content.length = totalSize subSamples ∧
      Moved (source.add offset) (destination.add offset) content m m' ∧
      (Apart (source.add offset) (destination.add offset) (totalSize subSamples) →
        content = Areas.load m.memory (source.add offset).add (totalSize subSamples)) := by
  induction subSamples generalizing m offset with
  | nil => exact ⟨m, [], rfl, rfl, Moved.nil _ _ m, fun _ => rfl⟩
  | cons subSample subSamples ih =>
    obtain ⟨hfirst, hrest⟩ := List.forall_mem_cons.mp hclear
    have htotal : totalSize (subSample :: subSamples) =
        subSample.numBytesOfClearData.toNat + totalSize subSamples := by
      rw [totalSize, List.map_cons, List.sum_cons, SubSample.size, hfirst]
      rfl
    rw [htotal] at hsize ⊢
    rw [copySubSamples]
    generalize subSample.numBytesOfClearData.toNat = c at hsize ⊢
    -- nothing is called for a sub-sample without bytes in the clear
    by_cases hzero : c = 0
    · subst hzero
      simp only [ne_eq, not_true_eq_false, if_false, Nat.zero_add]
      exact ih m offset (by omega) hrest
    · have hmoved := moved_memcpy (source.add offset) (destination.add offset) m (n := c) (by omega)
      obtain ⟨m', rest, hcopies, hlength', hmoved', hcontent'⟩ :=
        ih (m.memcpy (destination.add offset) (source.add offset) c) (offset + c) (by omega) hrest
      have hlength : (Areas.load m.memory (source.add offset).add c).length = c :=
        Areas.length_load _ _ _
      rw [← Pointer.add_add source, ← Pointer.add_add destination] at hmoved' hcontent'
      refine ⟨m', Areas.load m.memory (source.add offset).add c ++ rest, ?_, ?_, ?_, fun hapart => ?_⟩
      · rw [if_pos hzero, hcopies, Nat.add_assoc]
      · rw [List.length_append, hlength, hlength']
      · refine hmoved.trans ?_ (by omega)
        rwa [hlength]
      · have hlater := hmoved.load_rest (k := totalSize subSamples) (by rwa [hlength])
        rw [hlength] at hlater
        rw [hcontent' hapart.right, hlater, load_add]

/-! ### Calls -/

theorem addSubSamples_ok {destSize size : Nat} {haveEncryptedSubsamples encrypted : Bool}
    (h : addSubSamples subSamples destSize haveEncryptedSubsamples = .ok (size, encrypted)) :
    size = destSize + totalSize subSamples ∧
      (encrypted = false → ∀ subSample ∈ subSamples, subSample.numBytesOfEncryptedData = 0) ∧
      (encrypted = false → haveEncryptedSubsamples = false) := by
  induction subSamples generalizing destSize haveEncryptedSubsamples with
  | nil =>
    cases h
    exact ⟨rfl, fun _ _ hmem => absurd hmem List.not_mem_nil, fun h => h⟩
  | cons subSample subSamples ih =>
    rw [addSubSamples] at h
    split at h
    · cases h
    · split at h
      · cases h
      · obtain ⟨hsize, hclear, hfirst⟩ := ih h
        refine ⟨hsize.trans ?_, fun hnone => ?_, fun hnone => ?_⟩
        · rw [totalSize, totalSize, List.map_cons, List.sum_cons, Nat.add_assoc]
        · have hor := hfirst hnone
          rw [Bool.or_eq_false_iff] at hor
          refine List.forall_mem_cons.mpr ⟨?_, hclear hnone⟩
          have hnot := of_decide_eq_false hor.1
          bv_omega
        · have hor := hfirst hnone
          rw [Bool.or_eq_false_iff] at hor
          exact hor.2

/-- Where a call reads from. -/
def Call.sourcePointer (call : Call) : Pointer :=
  ⟨call.source.bufferId, call.source.offset + call.offset⟩

/-- Where a call writes to. The base is that of the source. -/
def Call.destinationPointer (call : Call) : Pointer :=
  ⟨call.source.bufferId, call.destination.nonsecureMemory.offset⟩

/-- What a call that passes the checks may rely on. -/
structure Checked (call : Call) (res : Pointer × Pointer × Bool) : Prop where
  source : res.1 = call.sourcePointer
  destination : res.2.1 = call.destinationPointer
  size : totalSize call.subSamples ≤ call.destination.nonsecureMemory.size.toNat
  clear : res.2.2 = false → ∀ subSample ∈ call.subSamples, subSample.numBytesOfEncryptedData = 0

variable {plugin : CryptoPlugin} {call : Call}

theorem check_cases (plugin : CryptoPlugin) (call : Call) :
    (∃ status text, plugin.check call = .error (status, text) ∧ status ≠ .OK) ∨
      ∃ res, plugin.check call = .ok res ∧ Checked call res := by
  rw [CryptoPlugin.check]
  dsimp only
  -- each check that fails has a status of its own
  split
  · exact .inl ⟨_, _, rfl, by decide⟩
  split
  · exact .inl ⟨_, _, rfl, by decide⟩
  split
  · exact .inl ⟨_, _, rfl, by decide⟩
  split
  · exact .inl ⟨_, _, rfl, by decide⟩
  split
  · exact .inl ⟨_, _, rfl, by decide⟩
  split
  · exact .inl ⟨_, _, rfl, by decide⟩
  split
  · exact .inl ⟨_, _, rfl, by decide⟩
  split
  · exact .inl ⟨_, _, rfl, by decide⟩
  split
  · exact .inl ⟨_, _, rfl, by decide⟩
  next size haveEncryptedSubsamples hadd =>
    split
    · exact .inl ⟨_, _, rfl, by decide⟩
    next hsize =>
      obtain ⟨htotal, hclear, _⟩ := addSubSamples_ok hadd
      refine .inr ⟨_, rfl, rfl, rfl, ?_, hclear⟩
      omega

variable (source destination iv) in
theorem decrypt_cases (session : Session) (keyId : List Byte) (m : Accessed)
    (hAES : CounterMode AES_ctr128_encrypt keyByte state) (hsize : totalSize subSamples < 2 ^ 64) :
    (∃ status, session.decrypt AES_ctr128_encrypt keyId iv source destination subSamples m =
      .error status ∧ status ≠ .OK) ∨
    ∃ key m' content, session.mKeyMap keyId = some key ∧
      session.decrypt AES_ctr128_encrypt keyId iv source destination subSamples m =
        .ok (m', totalSize subSamples) ∧
      content.length = totalSize subSamples ∧ Moved source destination content m m' ∧
      (Apart source destination (totalSize subSamples) →
        content = decrypted (keyByte key iv) subSamples 0
          (Areas.load m.memory source.add (totalSize subSamples))) := by
  rw [Session.decrypt]
  split
  · next herror => exact .inl ⟨_, rfl, herror⟩
  split
  · exact .inl ⟨_, rfl, by decide⟩
  next key hkey =>
    rw [decryptAesCtr]
    split
    · exact .inl ⟨_, rfl, by decide⟩
    · obtain ⟨m', content, hdecrypt, hlength, hmoved, hcontent⟩ :=
        decryptSubSamples_moved source destination m 0 key iv 0 hAES hsize
      rw [hAES.start, Nat.zero_add] at hdecrypt
      rw [Pointer.add_zero, Pointer.add_zero] at hmoved hcontent
      exact .inr ⟨key, m', content, hkey, congrArg Except.ok hdecrypt, hlength, hmoved, hcontent⟩

/-- What a call has done that succeeds. -/
structure Decrypts (keyByte : List Byte → List Byte → Nat → Byte) (plugin : CryptoPlugin)
    (memory : Contents) (call : Call) (result : Result) : Prop where
  size : totalSize call.subSamples ≤ call.destination.nonsecureMemory.size.toNat
  bytesWritten : result.bytesWritten = BitVec.ofNat 32 (totalSize call.subSamples)
  reads : result.accessed.reads = call.sourcePointer.range (totalSize call.subSamples)
  writes : result.accessed.writes = call.destinationPointer.range (totalSize call.subSamples)
  outside : ∀ p ∉ call.destinationPointer.range (totalSize call.subSamples),
    result.accessed.memory p = memory p
  mode : call.mode = .UNENCRYPTED ∨ call.mode = .AES_CTR
  unencrypted : call.mode = .UNENCRYPTED →
    Apart call.sourcePointer call.destinationPointer (totalSize call.subSamples) →
      Areas.load result.accessed.memory call.destinationPointer.add (totalSize call.subSamples) =
        Areas.load memory call.sourcePointer.add (totalSize call.subSamples)
  aesCtr : call.mode = .AES_CTR →
    ∃ session key, plugin.mSession = some session ∧ session.mKeyMap call.keyId.toList = some key ∧
      (Apart call.sourcePointer call.destinationPointer (totalSize call.subSamples) →
        Areas.load result.accessed.memory call.destinationPointer.add (totalSize call.subSamples) =
          decrypted (keyByte key call.iv.toList) call.subSamples 0
            (Areas.load memory call.sourcePointer.add (totalSize call.subSamples)))

theorem decrypt_1_2_cases {memory : Contents} {result : Result}
    (hAES : CounterMode AES_ctr128_encrypt keyByte state)
    (h : plugin.decrypt_1_2 AES_ctr128_encrypt memory call = some result) :
    (result.status = .OK ∧ Decrypts keyByte plugin memory call result) ∨
      (result.status ≠ .OK ∧ result.accessed = ⟨memory, [], []⟩ ∧ result.bytesWritten = 0) := by
  rw [CryptoPlugin.decrypt_1_2] at h
  obtain ⟨status, text, hcheck, hstatus⟩ | ⟨⟨srcPtr, destPtr, encrypted⟩, hcheck, hchecked⟩ :=
    check_cases plugin call
  · rw [hcheck] at h
    cases h
    exact .inr ⟨hstatus, rfl, rfl⟩
  · rw [hcheck] at h
    dsimp only at h
    obtain ⟨hsource, hdestination, hsize, hclear⟩ := hchecked
    dsimp only at hsource hdestination hclear
    have htotal : totalSize call.subSamples < 2 ^ 64 :=
      hsize.trans_lt call.destination.nonsecureMemory.size.isLt
    subst hsource hdestination
    -- both modes that are supported move the text through, and the others are refused
    cases hmode : call.mode with
    | UNENCRYPTED =>
      rw [hmode] at h
      dsimp only at h
      split at h
      · cases h
        exact .inr ⟨by simp, rfl, rfl⟩
      · next hnone =>
        obtain ⟨m', content, hcopy, hlength, hmoved, hcontent⟩ :=
          copySubSamples_moved call.sourcePointer call.destinationPointer ⟨memory, [], []⟩ 0 htotal
            (hclear (Bool.eq_false_iff.mpr hnone))
        rw [hcopy, Nat.zero_add] at h
        rw [Pointer.add_zero, Pointer.add_zero] at hmoved hcontent
        cases h
        obtain ⟨hreads, hwrites, houtside, hinside⟩ := hmoved.effects hlength
        refine .inl ⟨rfl, ?_⟩
        exact
          { size := hsize
            bytesWritten := rfl
            reads := hreads
            writes := hwrites
            outside := houtside
            mode := .inl hmode
            unencrypted := fun _ hapart => hinside.trans (hcontent hapart)
            aesCtr := fun hctr => by rw [hmode] at hctr; cases hctr }
    | AES_CTR =>
      rw [hmode] at h
      dsimp only at h
      split at h
      · cases h
      next session hsession =>
      -- the session refuses a key id, and keys that it does not have
      obtain ⟨status, hdecrypt, hstatus⟩ | ⟨key, m', content, hkey, hdecrypt, hlength, hmoved,
          hcontent⟩ := decrypt_cases call.sourcePointer call.destinationPointer call.iv.toList session
        call.keyId.toList ⟨memory, [], []⟩ hAES htotal
      · rw [hdecrypt] at h
        cases h
        exact .inr ⟨hstatus, rfl, rfl⟩
      · rw [hdecrypt] at h
        cases h
        obtain ⟨hreads, hwrites, houtside, hinside⟩ := hmoved.effects hlength
        refine .inl ⟨rfl, ?_⟩
        exact
          { size := hsize
            bytesWritten := rfl
            reads := hreads
            writes := hwrites
            outside := houtside
            mode := .inr hmode
            unencrypted := fun hclear => by rw [hmode] at hclear; cases hclear
            aesCtr := fun _ => ⟨session, key, hsession, hkey, fun hapart =>
              hinside.trans (hcontent hapart)⟩ }
    | AES_CBC_CTS =>
      rw [hmode] at h
      cases h
      exact .inr ⟨by simp, rfl, rfl⟩
    | AES_CBC =>
      rw [hmode] at h
      cases h
      exact .inr ⟨by simp, rfl, rfl⟩

/-! ### Counter mode, byte by byte -/

section Counter

variable (encryptBlock : List Byte → List Byte → List Byte)

/-- The next byte of the key stream. A block is made of `ivec`, a big-endian number, where the last one
is used up. -/
def nextByte (key : List Byte) (s : CounterState) : Byte × CounterState :=
  let s :=
    if s.num = 0 then
      { s with
        ecountBuf := encryptBlock key s.ivec
        ivec := (LittleEndian.increment s.ivec.reverse).reverse }
    else s
  (s.ecountBuf.getD s.num.toNat 0, { s with num := (s.num + 1) % BitVec.ofNat 32 kBlockSize })

def counterEncrypt (key : List Byte) (s : CounterState) : List Byte → List Byte × CounterState
  | [] => ([], s)
  | b :: text =>
    let (k, s) := nextByte encryptBlock key s
    let res := counterEncrypt key s text
    ((b ^^^ k) :: res.1, res.2)

def counterState (key iv : List Byte) (n : Nat) : CounterState :=
  (fun s => (nextByte encryptBlock key s).2)^[n] ⟨iv, List.replicate kBlockSize 0, 0⟩

def counterByte (key iv : List Byte) (n : Nat) : Byte :=
  (nextByte encryptBlock key (counterState encryptBlock key iv n)).1

/-- Whatever the cipher, this is what a decryption relies on. -/
theorem counterMode_counterEncrypt : CounterMode (counterEncrypt encryptBlock)
    (counterByte encryptBlock) (counterState encryptBlock) where
  start _ _ := rfl
  encrypt key iv n text := by
    induction text generalizing n with
    | nil => rfl
    | cons b text ih =>
      have hnext : (nextByte encryptBlock key (counterState encryptBlock key iv n)).2 =
          counterState encryptBlock key iv (n + 1) :=
        (Function.iterate_succ_apply' (fun s => (nextByte encryptBlock key s).2) n _).symm
      rw [counterEncrypt]
      dsimp only
      rw [hnext, ih, List.length_cons, Nat.add_comm text.length, ← Nat.add_assoc]
      rfl

end Counter

/-! ### What is read and written -/

/-- The block is the key's bytes xored with the counter's. -/
def xorBlock (key block : List Byte) : List Byte := List.zipWith (· ^^^ ·) key block

/-- A plugin with a session that has a key for each id, and a buffer of 64 bytes. -/
def onePlugin : CryptoPlugin :=
  { mSharedBufferMap := fun bufferId => if bufferId = 1 then some (some 64) else none
    mSession := some ⟨fun _ => some (List.replicate 16 0x30), .OK⟩ }

/-- Two subsamples, of two clear and three encrypted bytes and of one and two. -/
def twoSubSamples : Call :=
  { secure := false
    keyId := Vector.replicate 16 5
    iv := Vector.replicate 16 0x11
    mode := .AES_CTR
    subSamples := [⟨2, 3⟩, ⟨1, 2⟩]
    source := ⟨1, 4, 10⟩
    offset := 2
    destination := ⟨.SHARED_MEMORY, ⟨1, 32, 16⟩⟩ }

/-- A call that fails touches nothing. One that succeeds reads and writes the bytes of two areas, each
once, and gives the clear parts as they are and the encrypted parts with one key stream. -/
theorem decrypt_1_2_effect {memory : Contents} {result : Result}
    (hAES : CounterMode AES_ctr128_encrypt keyByte state)
    (h : plugin.decrypt_1_2 AES_ctr128_encrypt memory call = some result) :
    (result.status = .OK → Decrypts keyByte plugin memory call result) ∧
      (result.status ≠ .OK → result.accessed = ⟨memory, [], []⟩ ∧ result.bytesWritten = 0) := by
  obtain ⟨hok, hdecrypts⟩ | ⟨hne, huntouched⟩ := decrypt_1_2_cases hAES h
  · exact ⟨fun _ => hdecrypts, fun hne => absurd hok hne⟩
  · exact ⟨fun hok => absurd hok hne, fun _ => huntouched⟩

theorem decrypt_1_2_effect_twoSubSamples :
    ∃ result, onePlugin.decrypt_1_2 (counterEncrypt xorBlock)
        (fun p => BitVec.ofNat 8 p.position.toNat) twoSubSamples = some result ∧
      result.bytesWritten = 8 ∧
      result.accessed.reads = (List.range 8).map (fun i => ⟨1, BitVec.ofNat 64 (6 + i)⟩) ∧
      result.accessed.writes = (List.range 8).map (fun i => ⟨1, BitVec.ofNat 64 (32 + i)⟩) ∧
      Areas.load result.accessed.memory twoSubSamples.destinationPointer.add 8 =
        [6, 7, 0x29, 0x28, 0x2b, 11, 0x2d, 0x2c] := by
  obtain ⟨result, hresult, hok⟩ : ∃ result, onePlugin.decrypt_1_2 (counterEncrypt xorBlock)
      (fun p => BitVec.ofNat 8 p.position.toNat) twoSubSamples = some result ∧ result.status = .OK :=
    ⟨_, rfl, rfl⟩
  have hdecrypts := (decrypt_1_2_effect (counterMode_counterEncrypt xorBlock) hresult).1 hok
  obtain ⟨session, key, hsession, hkey, hcontent⟩ := hdecrypts.aesCtr rfl
  cases hsession
  cases hkey
  refine ⟨result, hresult, hdecrypts.bytesWritten, hdecrypts.reads, hdecrypts.writes, ?_⟩
  exact (hcontent (by unfold Apart; decide)).trans (by decide)

end MediaFramework.ClearKey
