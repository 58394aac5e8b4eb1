import MediaFramework.ImgUtils.TiffReading

/-!
# The layout that is written

The sizes and the bytes of named IFDs without the limits of `uint32_t`, and that the writer computes and
writes these as long as the limits are not reached.
-/

namespace MediaFramework.ImgUtils

open Endian (encode encodeAll)
open Endianness
open TagType

/-- An output in a byte order, after some bytes. -/
def output (big : Bool) (bs : List Byte) : EndianOutput :=
  { written := bs, mOffset := bs.length % 2^32, mEndian := if big then BIG else LITTLE }

variable {big : Bool} {bs : List Byte} {tag offset size : Nat}

/-! ## Outputs -/

theorem encode_byte (big : Bool) (x : Nat) : encode big 1 x = encode false 1 x := by
  cases big <;> rfl

theorem encodeAll_byte (big : Bool) (buf : List Nat) : encodeAll big 1 buf = encodeAll false 1 buf := by
  induction buf with
  | nil => rfl
  | cons x buf ih => rw [Endian.encodeAll_cons, Endian.encodeAll_cons, encode_byte, ih]

theorem encodeAll_zeros (n : Nat) : encodeAll false 1 (List.replicate n 0) = List.replicate n 0 := by
  induction n with
  | zero => rfl
  | succ n ih =>
    rw [List.replicate_succ, Endian.encodeAll_cons, ih, List.replicate_succ]
    rfl

@[simp]
theorem mOffset_output : (output big bs).mOffset = bs.length % 2^32 := rfl

theorem put_output (bs' : List Byte) : (output big bs).put bs' = output big (bs ++ bs') := by
  rw [EndianOutput.put, output, output, List.length_append]
  simp

@[simp]
theorem write_output (size : Nat) (buf : List Nat) :
    (output big bs).write size buf = some (output big (bs ++ encodeAll big size buf)) := by
  rw [EndianOutput.write]
  split
  · rename_i hsize
    rw [hsize, encodeAll_byte big, put_output]
  · cases big
    · exact congrArg some (put_output _)
    · exact congrArg some (put_output _)

@[simp]
theorem zeroTillWord_output (n : Nat) :
    (output big bs).zeroTillWord n = some (output big (bs ++ padding n)) := by
  rw [EndianOutput.zeroTillWord]
  split
  · rw [write_output, encodeAll_byte, encodeAll_zeros]
    rfl
  · rename_i hzero
    rw [padding, Nat.eq_zero_of_not_pos hzero, List.replicate_zero, List.append_nil]

theorem wordAlign_eq {n : Nat} (h : aligned n < 2^32) : wordAlign n = aligned n := Nat.mod_eq_of_lt h

/-! ## Values -/

namespace Values

variable {v : Values}

/-- The bytes of the values. -/
def full (v : Values) : Nat := v.size * (v.mType.arity * v.mCount)

/-- What its constructor makes of an entry for at least one value. -/
structure Sound (v : Values) : Prop where
  size_pos : 0 < v.size
  count_pos : 0 < v.mCount
  length : v.mData.length = v.mType.arity * v.mCount

/-- The byte order of the values outside of the entry. -/
def order (v : Values) (big : Bool) : Bool :=
  match v.mEnd with
  | UNDEFINED_ENDIAN => big
  | BIG => true
  | LITTLE => false

def room (v : Values) : Nat := if v.full ≤ 4 then 0 else aligned v.full

def field (v : Values) (big : Bool) (at' : Nat) : List Byte :=
  if v.full ≤ 4 then encodeAll big v.size v.mData ++ padding v.full else encode big 4 at'

def outside (v : Values) (big : Bool) : List Byte :=
  if v.full ≤ 4 then [] else encodeAll (v.order big) v.size v.mData ++ padding v.full

theorem arity_eq (v : Values) : v.mType.arity = if v.isRational then 2 else 1 := by
  rw [isRational]
  cases v.mType <;> rfl

theorem Sound.full_pos (h : v.Sound) : 0 < v.full :=
  Nat.mul_pos h.size_pos (Nat.mul_pos (arity_pos _) h.count_pos)

theorem getActualSize_eq (hfull : v.full < 2^32) : v.getActualSize = v.full := by
  have harity := v.arity_eq
  have hshape : v.full = v.mType.arity * (v.size * v.mCount) := by
    rw [full, Nat.mul_left_comm]
  rw [hshape] at hfull ⊢
  rw [getActualSize]
  split at harity
  · rename_i hrational
    rw [harity] at hfull ⊢
    rw [if_pos hrational]
    omega
  · rename_i hrational
    rw [harity] at hfull ⊢
    rw [if_neg hrational]
    omega

theorem Sound.take_elements (h : v.Sound) (hfull : v.full < 2^32) :
    v.mData.take v.elements = v.mData ∧ v.size * v.elements = v.full := by
  have harity := v.arity_eq
  have hle : v.mType.arity * v.mCount ≤ v.full := Nat.le_mul_of_pos_left _ h.size_pos
  have helements : v.elements = v.mType.arity * v.mCount := by
    rw [elements]
    split at harity
    · rename_i hrational
      rw [harity] at hle ⊢
      rw [if_pos hrational]
      omega
    · rename_i hrational
      rw [harity, if_neg hrational, Nat.one_mul]
  rw [helements]
  exact ⟨List.take_of_length_le (Nat.le_of_eq h.length), rfl⟩

theorem Sound.length_field (h : v.Sound) (at' : Nat) : (v.field big at').length = 4 := by
  have hpos := h.full_pos
  rw [field]
  split
  · rename_i hle
    rw [List.length_append, Endian.length_encodeAll, h.length, length_padding, ← full]
    exact aligned_of_le_four hpos hle
  · exact Endian.length_encode ..

theorem Sound.length_outside (h : v.Sound) : (v.outside big).length = v.room := by
  rw [outside, room]
  split
  · rfl
  · rw [List.length_append, Endian.length_encodeAll, h.length, length_padding, ← full]
    rfl

theorem room_mod (v : Values) : v.room % 4 = 0 := by
  rw [room]
  split
  · rfl
  · exact aligned_mod _

theorem writeTagInfo_output (h : v.Sound) (hfull : v.full < 2^32) (at' : Nat) :
    v.writeTagInfo tag at' (output big bs)
      = some (output big (bs ++ (info big tag v.mType v.mCount ++ v.field big at'))) := by
  obtain ⟨htake, -⟩ := h.take_elements hfull
  rw [writeTagInfo, getActualSize_eq hfull, htake, field, OFFSET_SIZE]
  by_cases hle : v.full ≤ 4
  · have hnot : ¬4 < v.full := by omega
    simp [hle, hnot, info, Endian.encodeAll]
  · have hlt : 4 < v.full := by omega
    simp [hle, hlt, info, Endian.encodeAll]

theorem writeData_output (h : v.Sound) (hfull : v.full < 2^32) (hgt : ¬v.full ≤ 4) :
    v.writeData (output big bs) = some (output big (bs ++ v.outside big)) := by
  obtain ⟨htake, hsize⟩ := h.take_elements hfull
  have horder : { output big bs with mEndian := if v.mEnd = UNDEFINED_ENDIAN then
      (output big bs).mEndian else v.mEnd } = output (v.order big) bs := by
    rw [order]
    cases v.mEnd <;> rfl
  have hback : { output (v.order big) (bs ++ encodeAll (v.order big) v.size v.mData) with
      mEndian := (output big bs).mEndian }
        = output big (bs ++ encodeAll (v.order big) v.size v.mData) := rfl
  rw [writeData, htake, hsize, horder, write_output, outside, if_neg hgt]
  simp only [Option.bind_eq_bind, Option.bind_some]
  rw [hback, zeroTillWord_output, List.append_assoc]

end Values

/-- A sum in `uint32_t` that does not wrap. -/
theorem foldl_add_eq {α : Type*} {f g : α → Nat} {l : List α} {total : Nat}
    (hfg : ∀ a ∈ l, g a < 2^32 → f a = g a) (h : total + (l.map g).sum < 2^32) :
    l.foldl (fun total a => (total + f a) % 2^32) total = total + (l.map g).sum := by
  induction l generalizing total with
  | nil => rfl
  | cons a l ih =>
    obtain ⟨ha, hl⟩ := List.forall_mem_cons.mp hfg
    rw [List.map_cons, List.sum_cons] at h ⊢
    rw [List.foldl_cons, ha (by omega), Nat.mod_eq_of_lt (by omega), ih hl (by omega), Nat.add_assoc]

/-! ## Entries -/

/-- That the size and the writing of an IFD are as they are without limits, where it has been given its
offset. -/
structure Correct (big : Bool) (size : Nat) (write : Nat → EndianOutput → Option EndianOutput)
    (full : Nat) (bytes : Nat → List Byte) : Prop where
  size : full < 2^32 → size = full
  write : ∀ bs : List Byte, 0 < bs.length → bs.length + full < 2^32 →
    write bs.length (output big bs) = some (output big (bs ++ bytes bs.length))
  length : ∀ offset, (bytes offset).length = full
  word : full % 4 = 0
  large : 4 < full

namespace TiffEntry

-- the sizes and the bytes of the IFDs that an entry can hold
variable (subFull : Nat → Nat) (subBytes : Nat → Nat → List Byte)

def subs : TiffEntry → List Nat
  | values _ => []
  | ifds _ _ mData => mData

def Sound : TiffEntry → Prop
  | values v => v.Sound
  | ifds _ mCount mData => mCount = mData.length ∧ mData ≠ []

def room : TiffEntry → Nat
  | values v => v.room
  | ifds _ _ mData => (mData.map subFull).sum

def infoField (big : Bool) (tag at' : Nat) : TiffEntry → List Byte
  | values v => info big tag v.mType v.mCount ++ v.field big at'
  | ifds mType mCount _ => info big tag mType mCount ++ encode big 4 at'

def ifdsBytes : List Nat → Nat → List Byte
  | [], _ => []
  | ifd :: rest, at' => subBytes ifd at' ++ ifdsBytes rest (at' + subFull ifd)

def outside (big : Bool) (at' : Nat) : TiffEntry → List Byte
  | values v => v.outside big
  | ifds _ _ mData => ifdsBytes subFull subBytes mData at'

variable {subFull} {subBytes} {ifdSize : Nat → Nat}
  {writeIfd : Nat → Nat → EndianOutput → Option EndianOutput} {entry : TiffEntry} {ids : List Nat}

theorem Sound.length_infoField (h : entry.Sound) (at' : Nat) :
    (entry.infoField big tag at').length = 12 := by
  cases entry with
  | values v => rw [infoField, List.length_append, length_info, Values.Sound.length_field h]
  | ifds mType mCount mData => rw [infoField, List.length_append, length_info, Endian.length_encode]

theorem sum_word (h : ∀ id ∈ ids, Correct big (ifdSize id) (writeIfd id) (subFull id) (subBytes id)) :
    (ids.map subFull).sum % 4 = 0 := by
  induction ids with
  | nil => rfl
  | cons id ids ih =>
    obtain ⟨hid, hids⟩ := List.forall_mem_cons.mp h
    have hword := hid.word
    have hrest := ih hids
    rw [List.map_cons, List.sum_cons]
    omega

section

variable (hsubs : ∀ id ∈ entry.subs, Correct big (ifdSize id) (writeIfd id) (subFull id) (subBytes id))
include hsubs

theorem room_mod : entry.room subFull % 4 = 0 := by
  cases entry with
  | values v => exact v.room_mod
  | ifds mType mCount mData => exact sum_word hsubs

theorem getSize_eq (h : entry.Sound) (hroom : entry.room subFull < 2^32) :
    entry.getSize ifdSize = entry.room subFull := by
  cases entry with
  | values v =>
    rw [getSize, getActualSize, room, OFFSET_SIZE]
    rw [room, Values.room] at hroom
    rw [Values.room]
    have hpos := Values.Sound.full_pos h
    have hle := le_aligned v.full
    by_cases hsmall : v.full ≤ 4
    · rw [Values.getActualSize_eq (by omega), wordAlign_eq, aligned_of_le_four hpos hsmall, if_pos hsmall]
      · exact if_pos (Nat.le_refl 4)
      · rw [aligned_of_le_four hpos hsmall]
        decide
    · rw [if_neg hsmall] at hroom
      rw [Values.getActualSize_eq (by omega), wordAlign_eq hroom, if_neg hsmall]
      exact if_neg (by omega)
  | ifds mType mCount mData =>
    obtain ⟨-, hne⟩ := h
    have hids : ∀ id ∈ mData, Correct big (ifdSize id) (writeIfd id) (subFull id) (subBytes id) := hsubs
    have hword := sum_word hids
    have hlarge : 4 < (mData.map subFull).sum := by
      cases mData with
      | nil => exact absurd rfl hne
      | cons id ids =>
        have hid := (hids id List.mem_cons_self).large
        rw [List.map_cons, List.sum_cons]
        omega
    rw [room] at hroom ⊢
    have hactual : (ifds mType mCount mData).getActualSize ifdSize = (mData.map subFull).sum :=
      (foldl_add_eq (fun id hid => (hids id hid).size) (by omega)).trans (Nat.zero_add _)
    have haligned : aligned (mData.map subFull).sum = (mData.map subFull).sum := by
      rw [aligned, bytesTillWord]
      omega
    rw [getSize, hactual, wordAlign_eq (by omega), haligned, OFFSET_SIZE]
    exact if_neg (by omega)

end

theorem writeTagInfo_output (h : entry.Sound) (hroom : entry.room subFull < 2^32) (at' : Nat) :
    entry.writeTagInfo tag at' (output big bs)
      = some (output big (bs ++ entry.infoField big tag at')) := by
  cases entry with
  | values v =>
    rw [room, Values.room] at hroom
    have hle := le_aligned v.full
    refine Values.writeTagInfo_output h ?_ at'
    split at hroom <;> omega
  | ifds mType mCount mData => simp [writeTagInfo, infoField, info, Endian.encodeAll]

theorem writeIfds_output (hpos : 0 < bs.length) (hend : bs.length + (ids.map subFull).sum < 2^32)
    (hids : ∀ id ∈ ids, Correct big (ifdSize id) (writeIfd id) (subFull id) (subBytes id)) :
    writeIfds ifdSize writeIfd ids bs.length (output big bs)
      = some (output big (bs ++ ifdsBytes subFull subBytes ids bs.length)) := by
  induction ids generalizing bs with
  | nil => rw [writeIfds, ifdsBytes, List.append_nil]
  | cons id ids ih =>
    obtain ⟨hid, hids⟩ := List.forall_mem_cons.mp hids
    rw [List.map_cons, List.sum_cons] at hend
    have hlength : (bs ++ subBytes id bs.length).length = bs.length + subFull id := by
      rw [List.length_append, hid.length]
    rw [writeIfds, hid.write bs hpos (by omega), hid.size (by omega), Nat.mod_eq_of_lt (by omega),
      ifdsBytes, ← List.append_assoc, ← hlength]
    exact ih (by omega) (by omega) hids

theorem writeValue_output (hpos : 0 < bs.length) (h : entry.Sound)
    (hend : bs.length + entry.room subFull < 2^32)
    (hsubs : ∀ id ∈ entry.subs, Correct big (ifdSize id) (writeIfd id) (subFull id) (subBytes id)) :
    TiffIfd.writeValue ifdSize writeIfd entry (output big bs)
      = some (output big (bs ++ entry.outside subFull subBytes big bs.length)) := by
  have hsize := getSize_eq hsubs h (by omega)
  have hoffset : (output big bs).mOffset = bs.length := by
    rw [mOffset_output, Nat.mod_eq_of_lt (by omega)]
  rw [TiffIfd.writeValue, hsize, hoffset]
  cases entry with
  | values v =>
    rw [room, Values.room] at hend ⊢
    have hle := le_aligned v.full
    by_cases hsmall : v.full ≤ 4
    · rw [if_pos hsmall, if_neg (by decide), outside, Values.outside, if_pos hsmall, List.append_nil]
    · rw [if_neg hsmall] at hend ⊢
      rw [if_pos (by rw [OFFSET_SIZE]; omega)]
      exact Values.writeData_output h (by omega) hsmall
  | ifds mType mCount mData =>
    obtain ⟨hcount, hne⟩ := h
    rw [room] at hend hsize ⊢
    have hlarge : OFFSET_SIZE < (mData.map subFull).sum := by
      cases mData with
      | nil => exact absurd rfl hne
      | cons id ids =>
        have hid := (hsubs id List.mem_cons_self).large
        rw [List.map_cons, List.sum_cons, OFFSET_SIZE]
        omega
    rw [if_pos hlarge, writeData, hcount, List.take_length]
    exact writeIfds_output hpos hend hsubs

theorem length_ifdsBytes (hids : ∀ id ∈ ids, ∀ offset, (subBytes id offset).length = subFull id)
    (at' : Nat) : (ifdsBytes subFull subBytes ids at').length = (ids.map subFull).sum := by
  induction ids generalizing at' with
  | nil => rfl
  | cons id ids ih =>
    obtain ⟨hid, hids⟩ := List.forall_mem_cons.mp hids
    rw [ifdsBytes, List.length_append, hid, ih hids, List.map_cons, List.sum_cons]

theorem Sound.length_outside (h : entry.Sound)
    (hsubs : ∀ id ∈ entry.subs, ∀ offset, (subBytes id offset).length = subFull id) (at' : Nat) :
    (entry.outside subFull subBytes big at').length = entry.room subFull := by
  cases entry with
  | values v => exact Values.Sound.length_outside h
  | ifds mType mCount mData => exact length_ifdsBytes hsubs at'

end TiffEntry

/-! ## IFDs -/

namespace TiffIfd

variable (subFull : Nat → Nat) (subBytes : Nat → Nat → List Byte)

def subs (ifd : TiffIfd) : List Nat := ifd.mEntries.values.flatMap TiffEntry.subs

/-- An IFD that can be written. -/
structure Sound (ifd : TiffIfd) : Prop where
  entries : ∀ entry ∈ ifd.mEntries.values, entry.Sound
  nonempty : 0 < ifd.mEntries.size
  few : ifd.mEntries.size ≤ MAX_IFD_ENTRIES

def roomOf (entries : List (Nat × TiffEntry)) : Nat := (entries.map fun e => e.2.room subFull).sum

def full (ifd : TiffIfd) : Nat :=
  aligned (tableSize ifd.mEntries.size) + roomOf subFull ifd.mEntries.entries

def infosOf (big : Bool) : List (Nat × TiffEntry) → Nat → List Byte
  | [], _ => []
  | (tag, entry) :: entries, at' =>
    entry.infoField big tag at' ++ infosOf big entries (at' + entry.room subFull)

def outsideOf (big : Bool) : List (Nat × TiffEntry) → Nat → List Byte
  | [], _ => []
  | (_, entry) :: entries, at' =>
    entry.outside subFull subBytes big at' ++ outsideOf big entries (at' + entry.room subFull)

/-- The offset of the first values. -/
def valueOffset (ifd : TiffIfd) (offset : Nat) : Nat := offset + aligned (tableSize ifd.mEntries.size)

def table (big hasNext : Bool) (ifd : TiffIfd) (offset : Nat) : List Byte :=
  encode big 2 ifd.mEntries.size ++ (infosOf subFull big ifd.mEntries.entries (ifd.valueOffset offset)
    ++ (encode big 4 (if hasNext then offset + ifd.full subFull else 0)
      ++ padding (tableSize ifd.mEntries.size)))

def bytes (big hasNext : Bool) (ifd : TiffIfd) (offset : Nat) : List Byte :=
  ifd.table subFull big hasNext offset
    ++ outsideOf subFull subBytes big ifd.mEntries.entries (ifd.valueOffset offset)

variable {subFull} {subBytes} {ifdSize : Nat → Nat}
  {writeIfd : Nat → Nat → EndianOutput → Option EndianOutput} {ifd : TiffIfd}
  {entries : List (Nat × TiffEntry)}

theorem length_infosOf (h : ∀ e ∈ entries, e.2.Sound) (at' : Nat) :
    (infosOf subFull big entries at').length = 12 * entries.length := by
  induction entries generalizing at' with
  | nil => rfl
  | cons e entries ih =>
    obtain ⟨he, hentries⟩ := List.forall_mem_cons.mp h
    rw [infosOf, List.length_append, he.length_infoField, ih hentries, List.length_cons, Nat.mul_succ,
      Nat.add_comm]

theorem length_outsideOf (h : ∀ e ∈ entries, e.2.Sound)
    (hsubs : ∀ e ∈ entries, ∀ id ∈ e.2.subs, ∀ offset, (subBytes id offset).length = subFull id)
    (at' : Nat) : (outsideOf subFull subBytes big entries at').length = roomOf subFull entries := by
  induction entries generalizing at' with
  | nil => rfl
  | cons e entries ih =>
    obtain ⟨he, hentries⟩ := List.forall_mem_cons.mp h
    obtain ⟨hid, hids⟩ := List.forall_mem_cons.mp hsubs
    rw [outsideOf, List.length_append, he.length_outside hid, ih hentries hids]
    exact List.sum_cons.symm

section

variable (hsound : ∀ e ∈ entries, e.2.Sound)
  (hsubs : ∀ e ∈ entries, ∀ id ∈ e.2.subs,
    Correct big (ifdSize id) (writeIfd id) (subFull id) (subBytes id))
include hsound hsubs

theorem sizeOfValues_eq {total : Nat} (h : total + roomOf subFull entries < 2^32) :
    sizeOfValues ifdSize entries total = total + roomOf subFull entries := by
  refine foldl_add_eq (fun e he hroom => ?_) h
  exact TiffEntry.getSize_eq (hsubs e he) (hsound e he) hroom

theorem roomOf_mod : roomOf subFull entries % 4 = 0 := by
  induction entries with
  | nil => rfl
  | cons e entries ih =>
    obtain ⟨-, hentries⟩ := List.forall_mem_cons.mp hsound
    obtain ⟨hid, hids⟩ := List.forall_mem_cons.mp hsubs
    have hword := TiffEntry.room_mod hid
    have hrest := ih hentries hids
    rw [roomOf] at hrest ⊢
    rw [List.map_cons, List.sum_cons]
    omega

theorem writeTagInfos_output {at' : Nat} (h : at' + roomOf subFull entries < 2^32) :
    writeTagInfos ifdSize entries at' (output big bs)
      = some (output big (bs ++ infosOf subFull big entries at')) := by
  induction entries generalizing bs at' with
  | nil => rw [writeTagInfos, infosOf, List.append_nil]
  | cons e entries ih =>
    obtain ⟨he, hentries⟩ := List.forall_mem_cons.mp hsound
    obtain ⟨hid, hids⟩ := List.forall_mem_cons.mp hsubs
    have hroom : roomOf subFull (e :: entries) = e.2.room subFull + roomOf subFull entries :=
      List.sum_cons
    have hinfo : e.2.writeTagInfo e.1 at' (output big bs)
        = some (output big (bs ++ e.2.infoField big e.1 at')) :=
      TiffEntry.writeTagInfo_output he (show e.2.room subFull < 2^32 by omega) at'
    have hsize : e.2.getSize ifdSize = e.2.room subFull := TiffEntry.getSize_eq hid he (by omega)
    rw [writeTagInfos, hinfo, hsize, Nat.mod_eq_of_lt (by omega), infosOf, ← List.append_assoc]
    exact ih hentries hids (by omega)

theorem writeValues_output (hpos : 0 < bs.length) (h : bs.length + roomOf subFull entries < 2^32) :
    writeValues ifdSize writeIfd entries (output big bs)
      = some (output big (bs ++ outsideOf subFull subBytes big entries bs.length)) := by
  induction entries generalizing bs with
  | nil => rw [writeValues, outsideOf, List.append_nil]
  | cons e entries ih =>
    obtain ⟨he, hentries⟩ := List.forall_mem_cons.mp hsound
    obtain ⟨hid, hids⟩ := List.forall_mem_cons.mp hsubs
    have hroom : roomOf subFull (e :: entries) = e.2.room subFull + roomOf subFull entries :=
      List.sum_cons
    have hlength : (bs ++ e.2.outside subFull subBytes big bs.length).length
        = bs.length + e.2.room subFull := by
      rw [List.length_append, he.length_outside fun id hmem => (hid id hmem).length]
    rw [writeValues, TiffEntry.writeValue_output hpos he (by omega) hid, outsideOf, ← List.append_assoc,
      ← hlength]
    exact ih hentries hids (by omega) (by omega)

end

namespace Sound

variable (h : ifd.Sound)
include h

theorem entries_sound : ∀ e ∈ ifd.mEntries.entries, e.2.Sound := fun e he =>
  h.entries e.2 (List.mem_map_of_mem he)

theorem size_lt : ifd.mEntries.size < 2^16 := Nat.lt_succ_of_le h.few

theorem calculateIfdSize_eq : calculateIfdSize ifd.mEntries.size = tableSize ifd.mEntries.size := by
  have hsize := h.size_lt
  rw [calculateIfdSize, tableSize, Nat.mod_eq_of_lt (by omega)]
  omega

theorem wordAlign_table : wordAlign (tableSize ifd.mEntries.size)
    = aligned (tableSize ifd.mEntries.size) := by
  have hsize := h.size_lt
  refine wordAlign_eq ?_
  rw [aligned, bytesTillWord, tableSize]
  omega

theorem length_table (hasNext : Bool) (offset : Nat) :
    (ifd.table subFull big hasNext offset).length = aligned (tableSize ifd.mEntries.size) := by
  simp only [table, List.length_append, Endian.length_encode, length_infosOf h.entries_sound,
    length_padding]
  rw [aligned, tableSize, ← KeyedVector.size]
  omega

theorem checkAndGetOffset_eq {offset : Nat} (hpos : 0 < offset)
    (hend : ifd.valueOffset offset < 2^32) : ifd.checkAndGetOffset offset = ifd.valueOffset offset := by
  have hfew := h.few
  have hnonempty := h.nonempty
  rw [valueOffset] at hend
  rw [checkAndGetOffset, if_neg (by omega), if_neg (by omega), if_neg (by omega), h.calculateIfdSize_eq,
    h.wordAlign_table, Nat.mod_eq_of_lt hend, valueOffset]

end Sound

theorem correct (hsound : ifd.Sound)
    (hsubs : ∀ id ∈ ifd.subs, Correct big (ifdSize id) (writeIfd id) (subFull id) (subBytes id))
    (hasNext : Bool) :
    Correct big (ifd.getSize ifdSize) (ifd.writeData ifdSize writeIfd hasNext) (ifd.full subFull)
      (ifd.bytes subFull subBytes big hasNext) := by
  have hentries := hsound.entries_sound
  have hids : ∀ e ∈ ifd.mEntries.entries, ∀ id ∈ e.2.subs,
      Correct big (ifdSize id) (writeIfd id) (subFull id) (subBytes id) := fun e he id hid =>
    hsubs id (List.mem_flatMap_of_mem (List.mem_map_of_mem he) hid)
  have hle := le_aligned (tableSize ifd.mEntries.size)
  have htable : tableSize ifd.mEntries.size = 2 + 12 * ifd.mEntries.size + 4 := rfl
  have hfull : ifd.full subFull
      = aligned (tableSize ifd.mEntries.size) + roomOf subFull ifd.mEntries.entries := rfl
  have hsize : ifd.full subFull < 2^32 → ifd.getSize ifdSize = ifd.full subFull := by
    intro hlt
    rw [getSize, hsound.calculateIfdSize_eq, hsound.wordAlign_table]
    exact sizeOfValues_eq hentries hids hlt
  refine ⟨hsize, fun bs hpos hend => ?_, fun offset => ?_, ?_, by omega⟩
  · have hoffset : ifd.valueOffset bs.length
        = bs.length + aligned (tableSize ifd.mEntries.size) := rfl
    have hlength : (bs ++ ifd.table subFull big hasNext bs.length).length
        = ifd.valueOffset bs.length := by
      rw [List.length_append, hsound.length_table, hoffset]
    have hinfos : ∀ bs', writeTagInfos ifdSize ifd.mEntries.entries (ifd.valueOffset bs.length)
        (output big bs') = some (output big (bs' ++ infosOf subFull big ifd.mEntries.entries
          (ifd.valueOffset bs.length))) := fun bs' => writeTagInfos_output hentries hids (by omega)
    have hfooter : (if hasNext then (bs.length + ifd.getSize ifdSize) % 2^32 else 0)
        = if hasNext then bs.length + ifd.full subFull else 0 := by
      rw [hsize (by omega), Nat.mod_eq_of_lt hend]
    have hvalues : writeValues ifdSize writeIfd ifd.mEntries.entries
        (output big (bs ++ ifd.table subFull big hasNext bs.length))
          = some (output big (bs ++ ifd.bytes subFull subBytes big hasNext bs.length)) := by
      rw [writeValues_output hentries hids (by omega) (by omega), hlength, List.append_assoc, bytes]
    rw [writeData, hsound.checkAndGetOffset_eq hpos (by omega), if_neg (by omega)]
    simp only [hfooter, hsound.calculateIfdSize_eq, Nat.mod_eq_of_lt hsound.size_lt,
      Option.bind_eq_bind, write_output, Option.bind_some, hinfos, zeroTillWord_output]
    rw [table] at hvalues
    simpa [Endian.encodeAll] using hvalues
  · rw [bytes, List.length_append, hsound.length_table, length_outsideOf hentries, hfull]
    exact fun e he id hid => (hids e he id hid).length
  · have hword := aligned_mod (tableSize ifd.mEntries.size)
    have hroom := roomOf_mod hentries hids
    omega

end TiffIfd

/-! ## Writers -/

namespace TiffWriter

variable (w : TiffWriter)

def ifdFull : Nat → Nat → Nat
  | 0, _ => 0
  | fuel + 1, ifd => (w.mNamedIfds.find? ifd).elim 0 (·.full (ifdFull fuel))

def ifdBytes (big : Bool) : Nat → Bool → Nat → Nat → List Byte
  | 0, _, _, _ => []
  | fuel + 1, hasNext, ifd, offset => (w.mNamedIfds.find? ifd).elim [] fun ifd =>
    ifd.bytes (w.ifdFull fuel) (ifdBytes big fuel false) big hasNext offset

/-- An IFD and those that it holds can be written, and are no more than `fuel` deep. -/
def SoundIfd : Nat → Nat → Prop
  | 0, _ => False
  | fuel + 1, ifd => ∃ i, w.mNamedIfds.find? ifd = some i ∧ i.Sound ∧ ∀ sub ∈ i.subs, SoundIfd fuel sub

structure Sound : Prop where
  nonempty : w.mIfd ≠ []
  ifds : ∀ ifd ∈ w.mIfd, w.SoundIfd w.mNamedIfds.size ifd

def full (ifd : Nat) : Nat := w.ifdFull w.mNamedIfds.size ifd

def chainFull (ifds : List Nat) : Nat := (ifds.map w.full).sum

/-- The size of the header. -/
def headerFull : Nat := FILE_HEADER_SIZE + w.chainFull w.mIfd

def chainBytes (big : Bool) : List Nat → Nat → List Byte
  | [], _ => []
  | ifd :: ifds, offset => w.ifdBytes big w.mNamedIfds.size (!ifds.isEmpty) ifd offset
    ++ chainBytes big ifds (offset + w.full ifd)

def bytes (big : Bool) : List Byte := headerBytes big ++ w.chainBytes big w.mIfd FILE_HEADER_SIZE

variable {w} {fuel ifd : Nat} {ifds : List Nat}

theorem correct (h : w.SoundIfd fuel ifd) (hasNext : Bool) :
    Correct big (w.ifdSize fuel ifd) (w.writeIfd fuel hasNext ifd) (w.ifdFull fuel ifd)
      (w.ifdBytes big fuel hasNext ifd) := by
  induction fuel generalizing ifd hasNext with
  | zero => exact absurd h id
  | succ fuel ih =>
    obtain ⟨i, hi, hsound, hsubs⟩ := h
    have hcorrect := TiffIfd.correct hsound (fun sub hsub => ih (hsubs sub hsub) false) hasNext
    have hsize : w.ifdSize (fuel + 1) ifd = i.getSize (w.ifdSize fuel) := by
      rw [ifdSize, hi, Option.elim_some]
    have hwrite : w.writeIfd (fuel + 1) hasNext ifd
        = i.writeData (w.ifdSize fuel) (w.writeIfd fuel false) hasNext := by
      funext offset out
      rw [writeIfd, hi, Option.bind_some]
    have hfull : w.ifdFull (fuel + 1) ifd = i.full (w.ifdFull fuel) := by
      rw [ifdFull, hi, Option.elim_some]
    have hbytes : w.ifdBytes big (fuel + 1) hasNext ifd
        = i.bytes (w.ifdFull fuel) (w.ifdBytes big fuel false) big hasNext := by
      funext offset
      rw [ifdBytes, hi, Option.elim_some]
    rw [hsize, hwrite, hfull, hbytes]
    exact hcorrect

section

variable (hifds : ∀ ifd ∈ ifds, w.SoundIfd w.mNamedIfds.size ifd)
include hifds

theorem length_chainBytes (offset : Nat) :
    (w.chainBytes big ifds offset).length = w.chainFull ifds := by
  induction ifds generalizing offset with
  | nil => rfl
  | cons ifd ifds ih =>
    obtain ⟨hifd, hifds⟩ := List.forall_mem_cons.mp hifds
    rw [chainBytes, List.length_append, (correct hifd _).length, ih hifds]
    exact List.sum_cons.symm

theorem writeChain_output (hpos : 0 < bs.length) (hend : bs.length + w.chainFull ifds < 2^32) :
    w.writeChain ifds bs.length (output big bs)
      = some (output big (bs ++ w.chainBytes big ifds bs.length)) := by
  induction ifds generalizing bs with
  | nil => rw [writeChain, chainBytes, List.append_nil]
  | cons ifd ifds ih =>
    obtain ⟨hifd, hifds⟩ := List.forall_mem_cons.mp hifds
    have hchain : w.chainFull (ifd :: ifds) = w.full ifd + w.chainFull ifds := List.sum_cons
    have hcorrect : Correct big (w.getSize ifd) _ (w.full ifd) _ := correct hifd (!ifds.isEmpty)
    have hlength : (bs ++ w.ifdBytes big w.mNamedIfds.size (!ifds.isEmpty) ifd bs.length).length
        = bs.length + w.full ifd := by
      rw [List.length_append, hcorrect.length]
    rw [writeChain, hcorrect.write bs hpos (by omega), hcorrect.size (by omega),
      Nat.mod_eq_of_lt (by omega), chainBytes, ← List.append_assoc, ← hlength]
    exact ih hifds (by omega) (by omega)

end

theorem getTotalSize_eq (h : w.Sound) (hend : w.headerFull < 2^32) : w.getTotalSize = w.headerFull :=
  foldl_add_eq (fun ifd hmem => (@correct false w _ ifd (h.ifds ifd hmem) false).size) hend

theorem writeFileHeader_output :
    writeFileHeader { mEndian := if big then BIG else LITTLE } = some (output big (headerBytes big)) := by
  have hstart : ({ mEndian := if big then BIG else LITTLE } : EndianOutput) = output big [] := rfl
  have hmarker : (if (output big []).mEndian = BIG then BIG_ENDIAN_MARKER else LITTLE_ENDIAN_MARKER)
      = byteOrderMarker big := by
    cases big <;> rfl
  rw [hstart, writeFileHeader, hmarker]
  simp [headerBytes, Endian.encodeAll]

theorem length_bytes (h : w.Sound) : (w.bytes big).length = w.headerFull := by
  rw [bytes, List.length_append, length_headerBytes, length_chainBytes h.ifds, headerFull]

/-- The header is written behind the file header. -/
theorem writeChain_header (h : w.Sound) (hend : w.headerFull < 2^32) :
    w.writeChain w.mIfd FILE_HEADER_SIZE (output big (headerBytes big)) = some (output big (w.bytes big)) := by
  have hlength := length_headerBytes big
  have hpos : 0 < (headerBytes big).length := by
    rw [hlength]
    decide
  have hwrite : w.writeChain w.mIfd (headerBytes big).length (output big (headerBytes big)) = _ :=
    writeChain_output h.ifds hpos (by rw [hlength]; exact hend)
  rw [hlength] at hwrite
  exact hwrite

theorem write_eq (h : w.Sound) (hend : w.headerFull < 2^32) :
    w.write (if big then BIG else LITTLE) = some (output big (w.bytes big)) := by
  rw [write, if_neg h.nonempty, writeFileHeader_output]
  exact writeChain_header h hend

end TiffWriter

end MediaFramework.ImgUtils
