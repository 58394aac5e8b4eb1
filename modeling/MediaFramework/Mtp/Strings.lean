import MediaFramework.Lib.Consume
import MediaFramework.Mtp.MtpDataPacket

/-!
# What is put and what is got

Rules for calls that put bytes behind the data of a packet, what is left in a packet for calls that
get them again, and the strings of a packet.
-/

namespace MediaFramework.Mtp

open LittleEndian Consume

/-- A call puts bytes behind the data, which stays below 2 GB. -/
def Writes (w : Packet Unit) (bytes : List Byte) : Prop :=
  ∀ packet : MtpDataPacket, packet.mOffset = packet.mBuffer.length →
    packet.mOffset + bytes.length + MTP_BUFFER_SIZE < 2 ^ 31 →
    ∃ packet', w packet = some ((), packet') ∧ packet'.mBuffer = packet.mBuffer ++ bytes ∧
      packet'.mOffset = packet'.mBuffer.length

/-- The bytes that are next in a packet with these bytes. -/
def Left (buffer : List Byte) (packet : MtpDataPacket) (rest : List Byte) : Prop :=
  packet.mBuffer = buffer ∧ buffer.drop packet.mOffset = rest

namespace Writes

theorem nil : Writes (pure ()) [] := by
  intro packet hend _
  exact ⟨packet, rfl, (List.append_nil _).symm, hend⟩

theorem bind {w w' : Packet Unit} {bytes bytes' : List Byte} (h : Writes w bytes)
    (h' : Writes w' bytes') : Writes (w >>= fun _ => w') (bytes ++ bytes') := by
  intro packet hend hroom
  rw [List.length_append] at hroom
  obtain ⟨packet₁, hw, hbuffer, hend₁⟩ := h packet hend (by omega)
  have hlength := congrArg List.length hbuffer
  rw [List.length_append] at hlength
  obtain ⟨packet₂, hw', hbuffer', hend₂⟩ := h' packet₁ hend₁ (by omega)
  refine ⟨packet₂, ?_, ?_, hend₂⟩
  · show (w packet).bind _ = _
    rw [hw]
    exact hw'
  · rw [hbuffer', hbuffer, List.append_assoc]

theorem put (bytes : List Byte) : Writes (put bytes) bytes := by
  intro packet hend hroom
  have hallocate : ∃ size, allocate (packet.mOffset + bytes.length) packet.mBufferSize = some size := by
    rw [allocate]
    split
    · dsimp only
      rw [if_pos (by omega)]
      exact ⟨_, rfl⟩
    · exact ⟨_, rfl⟩
  obtain ⟨size, hsize⟩ := hallocate
  have hpoke : Ring.poke packet.mBuffer packet.mOffset bytes = packet.mBuffer ++ bytes := by
    rw [Ring.poke, hend, List.take_length, List.drop_of_length_le (by omega), List.append_nil]
  refine ⟨_, by rw [Mtp.put, hsize]; rfl, hpoke, ?_⟩
  dsimp only
  rw [hpoke, List.length_append, hend]

theorem ite {c : Prop} [Decidable c] {w w' : Packet Unit} {bytes bytes' : List Byte}
    (h : c → Writes w bytes) (h' : ¬c → Writes w' bytes') :
    Writes (if c then w else w') (if c then bytes else bytes') := by
  split
  · next hc => exact h hc
  · next hc => exact h' hc

end Writes

variable {buffer : List Byte}

/-- All of the data has been got. -/
theorem Left.offset {packet : MtpDataPacket} {rest : List Byte} (h : Left buffer packet rest) :
    packet.mOffset + rest.length = buffer.length := by
  obtain ⟨hbuffer, hrest⟩ := h
  have hinside := packet.inside
  rw [hbuffer] at hinside
  rw [← hrest, List.length_drop]
  omega

theorem reads_getUInt (n : Nat) (v : BitVec (8 * n)) :
    Reads (Left buffer) (getUInt n) (digits n v.toNat) (· = v) := by
  rintro packet rest ⟨rfl, hnext⟩
  have hlength := congrArg List.length hnext
  rw [List.length_drop, List.length_append, length_digits] at hlength
  have hslice : Ring.slice packet.mBuffer packet.mOffset n = digits n v.toNat := by
    rw [Ring.slice, hnext]
    exact List.take_left' (length_digits _ _)
  have hvalue : BitVec.ofNat (8 * n) (value (Ring.slice packet.mBuffer packet.mOffset n)) = v := by
    have hpow : (256 : Nat) ^ n = 2 ^ (8 * n) := by rw [Nat.pow_mul]
    rw [hslice, value_digits, hpow, Nat.mod_eq_of_lt v.isLt, BitVec.ofNat_toNat, BitVec.setWidth_eq]
  refine ⟨_, _, dif_neg (by omega), hvalue, rfl, ?_⟩
  show packet.mBuffer.drop (packet.mOffset + n) = rest
  rw [← List.drop_drop, hnext]
  exact List.drop_left' (length_digits _ _)

theorem writes_putUInt (n : Nat) (v : BitVec (8 * n)) : Writes (putUInt n v) (digits n v.toNat) :=
  Writes.put _

/-! ### Units of 16 bits -/

theorem utf16ToUtf8_units (c : Char) (rest : List (BitVec 16)) :
    utf16ToUtf8 (utf16Units c ++ rest) = (utf16ToUtf8 rest).map (c :: ·) := by
  have hvalid : c.toNat < 0xD800 ∨ 0xDFFF < c.toNat ∧ c.toNat < 0x110000 := c.valid
  rw [utf16Units]
  split
  · next hsmall =>
    have hunit : (BitVec.ofNat 16 c.toNat).toNat = c.toNat := by
      rw [BitVec.toNat_ofNat, Nat.mod_eq_of_lt (by omega)]
    have hsingle : ¬(0xD800 ≤ (BitVec.ofNat 16 c.toNat).toNat ∧
        (BitVec.ofNat 16 c.toNat).toNat < 0xE000) := by
      rw [hunit]
      omega
    cases rest with
    | nil =>
      rw [List.append_nil]
      show (if _ then none else some [Char.ofNat _]) = some [c]
      rw [if_neg hsingle, hunit, Char.ofNat_toNat]
    | cons v units =>
      rw [List.singleton_append, utf16ToUtf8, if_neg hsingle, hunit, Char.ofNat_toNat]
  · next hlarge =>
    have hhigh : (BitVec.ofNat 16 (0xD800 + (c.toNat - 0x10000) / 0x400)).toNat =
        0xD800 + (c.toNat - 0x10000) / 0x400 := by
      rw [BitVec.toNat_ofNat, Nat.mod_eq_of_lt (by omega)]
    have hlow : (BitVec.ofNat 16 (0xDC00 + (c.toNat - 0x10000) % 0x400)).toNat =
        0xDC00 + (c.toNat - 0x10000) % 0x400 := by
      rw [BitVec.toNat_ofNat, Nat.mod_eq_of_lt (by omega)]
    have hchar : 0x10000 + (0xD800 + (c.toNat - 0x10000) / 0x400 - 0xD800) * 0x400 +
        (0xDC00 + (c.toNat - 0x10000) % 0x400 - 0xDC00) = c.toNat := by
      omega
    rw [List.cons_append, List.singleton_append, utf16ToUtf8, hhigh, hlow, if_pos (by omega),
      if_pos (by omega), hchar, Char.ofNat_toNat]

theorem utf16ToUtf8_utf8ToUtf16 (s : List Char) : utf16ToUtf8 (utf8ToUtf16 s) = some s := by
  induction s with
  | nil => rfl
  | cons c s ih =>
    rw [utf8ToUtf16] at ih ⊢
    rw [List.flatMap_cons, utf16ToUtf8_units, ih, Option.map_some]

theorem utf16Units_ne_zero {c : Char} (hc : c.toNat ≠ 0) : ∀ u ∈ utf16Units c, u ≠ 0 := by
  have hvalid : c.toNat < 0xD800 ∨ 0xDFFF < c.toNat ∧ c.toNat < 0x110000 := c.valid
  have hne : ∀ k, k ≠ 0 → k < 2 ^ 16 → BitVec.ofNat 16 k ≠ 0 := by
    intro k hk hlt hzero
    have hnat := congrArg BitVec.toNat hzero
    rw [BitVec.toNat_ofNat, Nat.mod_eq_of_lt hlt] at hnat
    exact hk hnat
  intro u hu
  rw [utf16Units] at hu
  split at hu
  · obtain rfl := List.mem_singleton.mp hu
    exact hne _ hc (by omega)
  · obtain rfl | hu := List.mem_cons.mp hu
    · exact hne _ (by omega) (by omega)
    · obtain rfl := List.mem_singleton.mp hu
      exact hne _ (by omega) (by omega)

def unitBytes (units : List (BitVec 16)) : List Byte := units.flatMap fun u => digits 2 u.toNat

theorem writes_putUnits (units : List (BitVec 16)) : Writes (putUnits units) (unitBytes units) := by
  induction units with
  | nil => exact Writes.nil
  | cons u units ih =>
    rw [unitBytes, List.flatMap_cons]
    exact (writes_putUInt 2 u).bind ih

theorem reads_getUnits (units : List (BitVec 16)) :
    Reads (Left buffer) (getUnits units.length) (unitBytes units) (· = units) := by
  induction units with
  | nil => exact Reads.pure rfl
  | cons u units ih =>
    rw [unitBytes, List.flatMap_cons]
    apply (reads_getUInt 2 u).bind
    rintro u rfl
    apply ih.map
    rintro units rfl
    rfl

/-! ### Strings -/

/-- A string that can be put without being cut. -/
def StringFits (s : List Char) : Prop :=
  (utf8ToUtf16 s).length < MTP_STRING_MAX_CHARACTER_NUMBER ∧ ∀ c ∈ s, c.toNat ≠ 0

instance (s : List Char) : Decidable (StringFits s) :=
  @instDecidableAnd _ _ inferInstance (List.decidableBAll _ s)

def stringBytes (s : List Char) : List Byte :=
  if (utf8ToUtf16 s).length = 0 then digits 1 0
  else
    digits 1 ((utf8ToUtf16 s).length + 1) ++ (unitBytes (utf8ToUtf16 s) ++ digits 2 0)

/-- The bytes of units that fit behind a count. -/
def countedBytes (units : List (BitVec 16)) : List Byte :=
  if units.length = 0 then digits 1 0
  else digits 1 (units.length + 1) ++ unitBytes (units ++ [0])

theorem countedBytes_utf8ToUtf16 (s : List Char) : countedBytes (utf8ToUtf16 s) = stringBytes s := by
  rw [countedBytes, stringBytes, unitBytes, unitBytes, List.flatMap_append]
  rfl

/-- A long string is cut behind its first 254 units. -/
theorem writes_writeToPacket (s : List Char) :
    Writes (writeToPacket s)
      (countedBytes ((utf8ToUtf16 s).take (MTP_STRING_MAX_CHARACTER_NUMBER - 1))) := by
  have hmax : MTP_STRING_MAX_CHARACTER_NUMBER = 255 := rfl
  have hlength := List.length_take (i := MTP_STRING_MAX_CHARACTER_NUMBER - 1) (l := utf8ToUtf16 s)
  have hcount : (BitVec.ofNat 8 (min ((utf8ToUtf16 s).length + 1)
      MTP_STRING_MAX_CHARACTER_NUMBER)).toNat =
        ((utf8ToUtf16 s).take (MTP_STRING_MAX_CHARACTER_NUMBER - 1)).length + 1 := by
    rw [BitVec.toNat_ofNat, hlength]
    omega
  have hput := writes_putUInt 1 (BitVec.ofNat 8 (min ((utf8ToUtf16 s).length + 1)
    MTP_STRING_MAX_CHARACTER_NUMBER))
  rw [hcount] at hput
  have hempty : ((utf8ToUtf16 s).take (MTP_STRING_MAX_CHARACTER_NUMBER - 1)).length = 0 ↔
      (utf8ToUtf16 s).length = 0 := by
    rw [hlength]
    omega
  rw [writeToPacket, countedBytes, unitBytes, List.flatMap_append]
  simp only [hempty]
  apply Writes.ite
  · intro _
    exact writes_putUInt 1 0
  · intro _
    exact hput.bind ((writes_putUnits _).bind (writes_putUInt 2 0))

theorem writes_putString {s : List Char} (h : StringFits s) : Writes (putString s) (stringBytes s) := by
  have htake : (utf8ToUtf16 s).take (MTP_STRING_MAX_CHARACTER_NUMBER - 1) = utf8ToUtf16 s :=
    List.take_of_length_le (Nat.le_pred_of_lt h.1)
  have hwrites := writes_writeToPacket s
  rw [htake, countedBytes_utf8ToUtf16] at hwrites
  exact hwrites

theorem readFromPacketInto_counted {units : List (BitVec 16)} (hunits : 0 ∉ units)
    (hlength : units.length < MTP_STRING_MAX_CHARACTER_NUMBER) (mString : List Char)
    {reader : MtpDataPacket} {fields : List Byte}
    (h : Left buffer reader (countedBytes units ++ fields)) :
    ∃ reader', Left buffer reader' fields ∧
      readFromPacketInto mString reader =
        (if units.length = 0 then some mString else utf16ToUtf8 units).map (·, reader') := by
  have hmax : MTP_STRING_MAX_CHARACTER_NUMBER = 255 := rfl
  rw [countedBytes] at h
  by_cases hempty : units.length = 0
  · rw [if_pos hempty] at h ⊢
    obtain ⟨_, reader₁, hget, rfl, hleft⟩ := reads_getUInt 1 0 reader fields h
    refine ⟨reader₁, hleft, ?_⟩
    show (getUInt 1 reader).bind _ = _
    rw [hget]
    rfl
  · rw [if_neg hempty, List.append_assoc] at h
    have hbyte : (BitVec.ofNat 8 (units.length + 1)).toNat = units.length + 1 := by
      rw [BitVec.toNat_ofNat]
      exact Nat.mod_eq_of_lt (by omega)
    have hne : BitVec.ofNat 8 (units.length + 1) ≠ 0 := by
      intro hzero
      rw [hzero] at hbyte
      have hz : (0 : BitVec 8).toNat = 0 := rfl
      omega
    have hreads : Reads (Left buffer) _ _ _ := reads_getUInt 1 (BitVec.ofNat 8 (units.length + 1))
    rw [hbyte] at hreads
    obtain ⟨_, reader₁, hget, rfl, hleft₁⟩ := hreads reader _ h
    obtain ⟨_, reader₂, hgets, rfl, hleft₂⟩ := reads_getUnits (units ++ [0]) reader₁ fields hleft₁
    have hconcat : (units ++ [0]).length = units.length + 1 := List.length_append
    have htake : (units ++ [0]).takeWhile (fun u => decide (u ≠ 0)) = units := by
      rw [List.takeWhile_append_of_pos]
      · exact List.append_nil _
      · intro u hu
        exact decide_eq_true fun hzero => hunits (hzero ▸ hu)
    rw [hconcat, ← hbyte] at hgets
    refine ⟨reader₂, hleft₂, ?_⟩
    show (getUInt 1 reader).bind _ = _
    rw [hget, if_neg hempty]
    dsimp only [Option.bind_some]
    rw [if_neg hne]
    show (getUnits _ reader₁).bind _ = _
    rw [hgets]
    dsimp only [Option.bind_some]
    rw [if_neg (by rw [List.getLast?_concat]; exact fun h => h rfl), htake]
    cases utf16ToUtf8 units with
    | none => rfl
    | some s => rfl

theorem reads_getString {s : List Char} (h : StringFits s) :
    Reads (Left buffer) getString (stringBytes s) (· = s) := by
  obtain ⟨hlength, hnonzero⟩ := h
  have hback := utf16ToUtf8_utf8ToUtf16 s
  have hunits : 0 ∉ utf8ToUtf16 s := by
    intro hzero
    obtain ⟨c, hc, hu⟩ := List.mem_flatMap.mp hzero
    exact utf16Units_ne_zero (hnonzero c hc) 0 hu rfl
  intro reader fields hleft
  rw [← countedBytes_utf8ToUtf16] at hleft
  obtain ⟨reader', hleft', hread⟩ := readFromPacketInto_counted hunits hlength [] hleft
  refine ⟨s, reader', ?_, rfl, hleft'⟩
  rw [getString, ← readFromPacketInto_nil, hread]
  split
  · next hempty =>
    rw [List.length_eq_zero_iff.mp hempty] at hback
    rw [← Option.some.inj hback]
    rfl
  · rw [hback]
    rfl

end MediaFramework.Mtp
