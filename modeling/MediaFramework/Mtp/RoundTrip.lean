import MediaFramework.Mtp.Values

/-!
# Properties are read as they were written

The layout of a property depends on its type, on device and object properties and on the form. What
the layout carries is read as it was written, and nothing behind it is touched.
-/

namespace MediaFramework.Mtp

open LittleEndian Consume

namespace MtpProperty

variable (junk : MtpPropertyValue) (p q : MtpProperty)

/-- What `read` and `write` take for granted about the values. -/
structure Valid : Prop where
  type : valueCase p.mType ≠ none
  default : if isArrayType p.mType then ArrayFits p.mDefaultArrayValues else ValueFits p.mDefaultValue
  current : p.isDeviceProperty →
    if isArrayType p.mType then ArrayFits p.mCurrentArrayValues else ValueFits p.mCurrentValue
  range : p.mFormFlag = kFormRange →
    ValueFits p.mMinimumValue ∧ ValueFits p.mMaximumValue ∧ ValueFits p.mStepSize
  enum : p.mFormFlag = kFormEnum →
    p.mEnumValues.length < 2 ^ 16 ∧ ∀ v ∈ p.mEnumValues, ValueFits v

/-! ### The bytes of a property -/

def defaultBytes : List Byte :=
  if isArrayType p.mType then
    arrayBytes p.mType p.mDefaultArrayValues ++
      if p.isDeviceProperty then arrayBytes p.mType p.mCurrentArrayValues else []
  else
    valueBytes p.mType p.mDefaultValue ++
      if p.isDeviceProperty then valueBytes p.mType p.mCurrentValue else []

def groupBytes : List Byte := if p.isDeviceProperty then [] else digits 4 p.mGroupCode.toNat

def formBytes : List Byte :=
  digits 1 p.mFormFlag.toNat ++
    if p.mFormFlag = kFormRange then
      valueBytes p.mType p.mMinimumValue ++
        (valueBytes p.mType p.mMaximumValue ++ valueBytes p.mType p.mStepSize)
    else if p.mFormFlag = kFormEnum then
      digits 2 (BitVec.ofNat 16 p.mEnumValues.length).toNat ++ valuesBytes p.mType p.mEnumValues
    else []

def bytes : List Byte :=
  digits 2 p.mCode.toNat ++ (digits 2 p.mType.toNat ++
    (digits 1 (if p.mWriteable then 1 else 0 : BitVec 8).toNat ++
      (p.defaultBytes ++ (p.groupBytes ++ p.formBytes))))

/-! ### Writing -/

variable {p q}

theorem Valid.writes_default (h : p.Valid) : Writes p.writeDefault p.defaultBytes := by
  obtain ⟨-, hdefault, hcurrent, -, -⟩ := h
  rw [writeDefault, defaultBytes]
  apply Writes.ite
  · intro harray
    rw [if_pos harray] at hdefault hcurrent
    apply (writes_array _ hdefault).bind
    apply Writes.ite
    · intro hdevice
      exact writes_array _ (hcurrent hdevice)
    · intro _
      exact Writes.nil
  · intro hscalar
    rw [if_neg hscalar] at hdefault hcurrent
    apply (writes_value _ hdefault).bind
    apply Writes.ite
    · intro hdevice
      exact writes_value _ (hcurrent hdevice)
    · intro _
      exact Writes.nil

theorem writes_group : Writes p.writeGroupCode p.groupBytes := by
  rw [writeGroupCode, groupBytes]
  apply Writes.ite
  · intro _
    exact Writes.nil
  · intro _
    exact writes_putUInt 4 _

theorem Valid.writes_form (h : p.Valid) : Writes p.writeForm p.formBytes := by
  obtain ⟨-, -, -, hrange, henum⟩ := h
  rw [writeForm, formBytes]
  apply (writes_putUInt 1 _).bind
  apply Writes.ite
  · intro hflag
    obtain ⟨hmin, hmax, hstep⟩ := hrange hflag
    exact (writes_value _ hmin).bind ((writes_value _ hmax).bind (writes_value _ hstep))
  · intro _
    apply Writes.ite
    · intro hflag
      exact (writes_putUInt 2 _).bind (writes_values _ (henum hflag).2)
    · intro _
      exact Writes.nil

theorem Valid.writes (h : p.Valid) : Writes p.write p.bytes :=
  (writes_putUInt 2 _).bind ((writes_putUInt 2 _).bind ((writes_putUInt 1 _).bind
    (h.writes_default.bind (writes_group.bind h.writes_form))))

/-! ### Reading -/

variable (p q)

structure SameHeader : Prop where
  code : q.mCode = p.mCode
  type : q.mType = p.mType
  writeable : q.mWriteable = p.mWriteable

/-- An object property has no current value in its layout. -/
structure SameDefault : Prop extends SameHeader p q where
  default : if isArrayType p.mType then SameValues p.mType p.mDefaultArrayValues q.mDefaultArrayValues
    else SameValue p.mType p.mDefaultValue q.mDefaultValue
  current : p.isDeviceProperty →
    if isArrayType p.mType then SameValues p.mType p.mCurrentArrayValues q.mCurrentArrayValues
    else SameValue p.mType p.mCurrentValue q.mCurrentValue

/-- A device property has no group code in its layout. -/
structure SameGroup : Prop extends SameDefault p q where
  group : ¬p.isDeviceProperty → q.mGroupCode = p.mGroupCode

/-- What the layout of a property carries is the same. -/
structure Same : Prop extends SameGroup p q where
  form : q.mFormFlag = p.mFormFlag
  range : p.mFormFlag = kFormRange → SameValue p.mType p.mMinimumValue q.mMinimumValue ∧
    SameValue p.mType p.mMaximumValue q.mMaximumValue ∧ SameValue p.mType p.mStepSize q.mStepSize
  enum : p.mFormFlag = kFormEnum → SameValues p.mType p.mEnumValues q.mEnumValues

variable {p q} {buffer : List Byte}

theorem SameHeader.device (h : SameHeader p q) : q.isDeviceProperty = p.isDeviceProperty := by
  rw [isDeviceProperty, isDeviceProperty, h.code]

theorem Valid.reads_default (hp : p.Valid) (h : SameHeader p q) :
    Reads (Left buffer) (q.readDefault junk) p.defaultBytes (SameDefault p) := by
  obtain ⟨hcase, hdefault, hcurrent, -, -⟩ := hp
  rw [readDefault, defaultBytes, h.type]
  apply Reads.ite Iff.rfl
  · intro harray
    rw [if_pos harray] at hdefault hcurrent
    apply (reads_array hcase junk hdefault).bind
    intro values hvalues
    apply Reads.ite (by rw [← h.device]; exact Iff.rfl)
    · intro hdevice
      apply (reads_array hcase junk (hcurrent hdevice)).map
      intro current hsame
      exact ⟨⟨h.code, rfl, h.writeable⟩, by rwa [if_pos harray], fun _ => by rwa [if_pos harray]⟩
    · intro hobject
      exact Reads.pure ⟨⟨h.code, rfl, h.writeable⟩, by rwa [if_pos harray],
        fun hdevice => absurd hdevice hobject⟩
  · intro hscalar
    rw [if_neg hscalar] at hdefault hcurrent
    apply (reads_value hcase _ hdefault).bind
    intro value hvalue
    apply Reads.ite (by rw [← h.device]; exact Iff.rfl)
    · intro hdevice
      apply (reads_value hcase _ (hcurrent hdevice)).map
      intro current hsame
      exact ⟨⟨h.code, rfl, h.writeable⟩, by rwa [if_neg hscalar],
        fun _ => by rwa [if_neg hscalar]⟩
    · intro hobject
      exact Reads.pure ⟨⟨h.code, rfl, h.writeable⟩, by rwa [if_neg hscalar],
        fun hdevice => absurd hdevice hobject⟩

theorem reads_group (h : SameDefault p q) :
    Reads (Left buffer) q.readGroupCode p.groupBytes (SameGroup p) := by
  rw [readGroupCode, groupBytes]
  apply Reads.ite (by rw [h.device])
  · intro hdevice
    exact Reads.pure ⟨h, fun hobject => absurd hdevice hobject⟩
  · intro _
    apply (reads_getUInt 4 p.mGroupCode).map
    rintro group rfl
    exact ⟨⟨⟨h.code, h.type, h.writeable⟩, h.default, h.current⟩, fun _ => rfl⟩

theorem Valid.reads_form (hp : p.Valid) (h : SameGroup p q) :
    Reads (Left buffer) (q.readForm junk) p.formBytes (Same p) := by
  obtain ⟨hcase, -, -, hrange, henum⟩ := hp
  rw [readForm, formBytes, h.type]
  apply (reads_getUInt 1 p.mFormFlag).bind
  rintro flag rfl
  apply Reads.ite Iff.rfl
  · intro hflag
    have hother : p.mFormFlag ≠ kFormEnum := hflag ▸ by decide
    obtain ⟨hmin, hmax, hstep⟩ := hrange hflag
    apply (reads_value hcase _ hmin).bind
    intro min' hmin'
    apply (reads_value hcase _ hmax).bind
    intro max' hmax'
    apply (reads_value hcase _ hstep).map
    intro step' hstep'
    exact ⟨⟨⟨⟨h.code, rfl, h.writeable⟩, h.default, h.current⟩, h.group⟩, rfl,
      fun _ => ⟨hmin', hmax', hstep'⟩, fun henum => absurd henum hother⟩
  · intro hrange
    apply Reads.ite Iff.rfl
    · intro hflag
      obtain ⟨hlength, hvalues⟩ := henum hflag
      have hcount : (BitVec.ofNat 16 p.mEnumValues.length).toNat = p.mEnumValues.length := by
        rw [BitVec.toNat_ofNat, Nat.mod_eq_of_lt hlength]
      apply (reads_getUInt 2 (BitVec.ofNat 16 p.mEnumValues.length)).bind
      rintro length rfl
      rw [hcount]
      apply (reads_values hcase junk hvalues).map
      intro values hsame
      exact ⟨⟨⟨⟨h.code, rfl, h.writeable⟩, h.default, h.current⟩, h.group⟩, rfl,
        fun h => absurd h hrange, fun _ => hsame⟩
    · intro henum
      exact Reads.pure ⟨⟨⟨⟨h.code, rfl, h.writeable⟩, h.default, h.current⟩, h.group⟩, rfl,
        fun h => absurd h hrange, fun h => absurd h henum⟩

theorem Valid.reads (h : p.Valid) :
    Reads (Left buffer) ((fresh junk).read junk) p.bytes (Same p) := by
  apply (reads_getUInt 2 p.mCode).bind
  rintro code rfl
  apply (reads_getUInt 2 p.mType).bind
  rintro type rfl
  apply (reads_getUInt 1 (if p.mWriteable then 1 else 0)).bind
  rintro temp8 rfl
  have hheader : SameHeader p { fresh junk with
      mCode := p.mCode
      mType := p.mType
      mWriteable := (if p.mWriteable then 1 else 0 : BitVec 8) = 1 } :=
    ⟨rfl, rfl, by cases p.mWriteable <;> rfl⟩
  apply (h.reads_default junk hheader).bind
  intro q hq
  apply (reads_group hq).bind
  intro q hq
  exact h.reads_form junk hq

/-! ### One property after another -/

def writeProperties : List MtpProperty → Packet Unit
  | [] => return ()
  | p :: ps => do
    p.write
    writeProperties ps

/-- Each property is read into a fresh one. -/
def readProperties : List MtpPropertyValue → Packet (List MtpProperty)
  | [] => return []
  | junk :: junks => do
    let p ← (fresh junk).read junk
    let ps ← readProperties junks
    return p :: ps

theorem writes_properties {ps : List MtpProperty} (h : ∀ p ∈ ps, p.Valid) :
    Writes (writeProperties ps) (ps.flatMap bytes) := by
  induction ps with
  | nil => exact Writes.nil
  | cons p ps ih =>
    obtain ⟨hp, hps⟩ := List.forall_mem_cons.mp h
    rw [List.flatMap_cons]
    exact hp.writes.bind (ih hps)

theorem reads_properties {ps : List MtpProperty} (h : ∀ p ∈ ps, p.Valid)
    {junks : List MtpPropertyValue} (hlength : junks.length = ps.length) :
    Reads (Left buffer) (readProperties junks) (ps.flatMap bytes) (List.Forall₂ Same ps) := by
  induction ps generalizing junks with
  | nil =>
    rw [List.length_eq_zero_iff.mp hlength]
    exact Reads.pure List.Forall₂.nil
  | cons p ps ih =>
    obtain ⟨hp, hps⟩ := List.forall_mem_cons.mp h
    cases junks with
    | nil => exact absurd hlength (Nat.zero_ne_add_one _)
    | cons junk junks =>
      rw [List.flatMap_cons]
      apply (hp.reads junk).bind
      intro q hq
      apply (ih hps (Nat.succ.inj hlength)).map
      intro qs hqs
      exact List.Forall₂.cons hq hqs

/-- Whatever properties are written one after another are read one after another, from the first
byte written to the last. -/
theorem read_as_written {ps : List MtpProperty} (h : ∀ p ∈ ps, p.Valid)
    {junks : List MtpPropertyValue} (hlength : junks.length = ps.length) {packet : MtpDataPacket}
    (hend : packet.mOffset = packet.mBuffer.length)
    (hroom : packet.mOffset + (ps.flatMap bytes).length + MTP_BUFFER_SIZE < 2 ^ 31) :
    ∃ written, writeProperties ps packet = some ((), written) ∧
      ∀ reading : MtpDataPacket, reading.mBuffer = written.mBuffer →
        reading.mOffset = packet.mOffset →
        ∃ qs consumed, readProperties junks reading = some (qs, consumed) ∧ List.Forall₂ Same ps qs ∧
          consumed.mBuffer = written.mBuffer ∧ consumed.mOffset = written.mOffset := by
  obtain ⟨written, hwrite, hbuffer, hoffset⟩ := writes_properties h packet hend hroom
  refine ⟨written, hwrite, ?_⟩
  intro reading hsame hstart
  have hleft : Left written.mBuffer reading (ps.flatMap bytes ++ []) := by
    refine ⟨hsame, ?_⟩
    rw [hbuffer, hstart, hend, List.drop_left, List.append_nil]
  obtain ⟨qs, consumed, hread, hqs, hdone⟩ := reads_properties h hlength reading [] hleft
  refine ⟨qs, consumed, hread, hqs, hdone.1, ?_⟩
  rw [hoffset, ← hdone.offset, List.length_nil, Nat.add_zero]

/-- A battery level between 0 and 100. -/
def batteryLevel : MtpProperty where
  mCode := 0x5001
  mType := MTP_TYPE_UINT8
  mDefaultValue := { u := 100 }
  mCurrentValue := { u := 42 }
  mFormFlag := kFormRange
  mMaximumValue := { u := 100 }
  mStepSize := { u := 1 }

/-- A name that has no default. -/
def objectFileName : MtpProperty where
  mCode := 0xDC07
  mType := MTP_TYPE_STR
  mWriteable := true
  mGroupCode := 1
  mFormFlag := kFormEnum
  mStepSize := {}
  mEnumValues := [{ str := some ['a', 'é'] }, {}]

theorem batteryLevel_valid : batteryLevel.Valid :=
  ⟨by decide, by decide, by decide, by decide, by decide⟩

theorem objectFileName_valid : objectFileName.Valid :=
  ⟨by decide, by decide, by decide, by decide, by decide⟩

theorem read_as_written_two :
    (∀ p ∈ [batteryLevel, objectFileName], p.Valid) ∧
      ∃ written, writeProperties [batteryLevel, objectFileName] reset = some ((), written) ∧
        ∀ reading : MtpDataPacket, reading.mBuffer = written.mBuffer →
          reading.mOffset = reset.mOffset →
          ∃ qs consumed, readProperties [{ u := 7 }, { u := 8 }] reading = some (qs, consumed) ∧
            List.Forall₂ Same [batteryLevel, objectFileName] qs ∧
            consumed.mBuffer = written.mBuffer ∧ consumed.mOffset = written.mOffset := by
  have hvalid : ∀ p ∈ [batteryLevel, objectFileName], p.Valid :=
    List.forall_mem_cons.mpr ⟨batteryLevel_valid, List.forall_mem_singleton.mpr objectFileName_valid⟩
  exact ⟨hvalid, read_as_written hvalid rfl rfl (by decide +kernel)⟩

/-- What a fresh property reads from the packet that `write` makes. -/
def readBack (p : MtpProperty) : Option MtpProperty := do
  let ((), written) ← p.write reset
  if h : MTP_CONTAINER_HEADER_SIZE ≤ written.mBuffer.length then
    let (q, _) ← (fresh {}).read {}
      ⟨written.mBuffer, written.mBufferSize, MTP_CONTAINER_HEADER_SIZE, h⟩
    return q
  else none

/-- No property with an empty array is read, a device property has no group code in its layout and
an object property no current value. -/
theorem empty_array_not_read_back :
    readBack { mCode := 0xDC01, mType := MTP_TYPE_AUINT8, mStepSize := {} } = none ∧
      (readBack { batteryLevel with mGroupCode := 5 }).map mGroupCode = some 0 ∧
      (readBack { objectFileName with mCurrentValue := { u := 5 } }).map mCurrentValue = some {} := by
  decide +kernel

end MtpProperty

end MediaFramework.Mtp
