import MediaFramework.Mtp.Strings

/-!
# Two ways to put a string

`MtpDataPacket::putString` counts the units of a zero-terminated string and adds one for the
terminator, and `MtpStringBuffer` takes at most 254 of them. What they put is the same up to there.
-/

namespace MediaFramework.Mtp

open LittleEndian Consume

/-! ### The functions -/

/-- The units in front of the terminator, at most as many as there are passes. -/
def countUnits (string : List (BitVec 16)) : Nat → Nat → Option Nat
  | 0, _ => some 0
  | passes + 1, i => do
    let unit ← string[i]?
    if unit ≠ 0 then return (← countUnits string passes (i + 1)) + 1
    else return 0

/-- `putString` for a `const uint16_t*`. -/
def putUtf16String (string : List (BitVec 16)) : Packet Unit := do
  let count ← countUnits string (MTP_STRING_MAX_CHARACTER_NUMBER + 1) 0
  putUInt8 (BitVec.ofNat 8 (if count > 0 then count + 1 else 0))
  putUnits (string.take count)
  if count > 0 then putUInt16 0
  else return ()

/-- `set` for a `const uint16_t*`. -/
def set (src : List (BitVec 16)) : Option (List Char) :=
  if 0 ∈ src then utf16ToUtf8 (src.takeWhile (· ≠ 0)) else none

def putStringBuffer (src : List (BitVec 16)) : Packet Unit := do
  writeToPacket (← set src)

/-! ### Conversion -/

/-- The first half of a pair. -/
def IsHigh (u : BitVec 16) : Prop := 0xD800 ≤ u.toNat ∧ u.toNat < 0xDC00

instance (u : BitVec 16) : Decidable (IsHigh u) := inferInstanceAs (Decidable (_ ∧ _))

theorem toNat_ofNat {n : Nat} (h : n < 0xD800 ∨ 0xDFFF < n ∧ n < 0x110000) :
    (Char.ofNat n).toNat = n := by
  have hvalid : n.isValidChar := h
  rw [Char.ofNat, dif_pos hvalid]
  rfl

theorem utf16Units_small {n : Nat} (h : n < 0xD800 ∨ 0xDFFF < n ∧ n < 0x10000) :
    utf16Units (Char.ofNat n) = [BitVec.ofNat 16 n] := by
  rw [utf16Units, toNat_ofNat (by omega), if_pos (by omega)]

theorem utf16Units_pair {high low : Nat} (hhigh : 0xD800 ≤ high ∧ high < 0xDC00)
    (hlow : 0xDC00 ≤ low ∧ low < 0xE000) :
    utf16Units (Char.ofNat (0x10000 + (high - 0xD800) * 0x400 + (low - 0xDC00))) =
      [BitVec.ofNat 16 high, BitVec.ofNat 16 low] := by
  have hfirst : 0xD800 + (0x10000 + (high - 0xD800) * 0x400 + (low - 0xDC00) - 0x10000) / 0x400 =
      high := by omega
  have hsecond : 0xDC00 + (0x10000 + (high - 0xD800) * 0x400 + (low - 0xDC00) - 0x10000) % 0x400 =
      low := by omega
  rw [utf16Units, toNat_ofNat (by omega), if_neg (by omega), hfirst, hsecond]

/-- Units that have a conversion come back from it. -/
theorem utf8ToUtf16_utf16ToUtf8 {units : List (BitVec 16)} {s : List Char}
    (h : utf16ToUtf8 units = some s) : utf8ToUtf16 s = units := by
  induction units using utf16ToUtf8.induct generalizing s with
  | case1 =>
    obtain rfl := Option.some.inj h
    rfl
  | case2 u hsurrogate =>
    rw [utf16ToUtf8, if_pos hsurrogate] at h
    cases h
  | case3 u hsurrogate =>
    rw [utf16ToUtf8, if_neg hsurrogate] at h
    obtain rfl := Option.some.inj h
    have hlt := u.isLt
    rw [utf8ToUtf16, List.flatMap_singleton, utf16Units_small (by omega), BitVec.ofNat_toNat,
      BitVec.setWidth_eq]
  | case4 u v units hsurrogate hpair ih =>
    rw [utf16ToUtf8, if_pos hsurrogate, if_pos hpair] at h
    obtain ⟨t, ht, rfl⟩ := Option.map_eq_some_iff.mp h
    have hrest := ih ht
    rw [utf8ToUtf16] at hrest ⊢
    rw [List.flatMap_cons, hrest, utf16Units_pair ⟨hsurrogate.1, hpair.1⟩ hpair.2,
      BitVec.ofNat_toNat, BitVec.setWidth_eq, BitVec.ofNat_toNat, BitVec.setWidth_eq]
    rfl
  | case5 u v units hsurrogate hpair =>
    rw [utf16ToUtf8, if_pos hsurrogate, if_neg hpair] at h
    cases h
  | case6 u v units hsurrogate ih =>
    rw [utf16ToUtf8, if_neg hsurrogate] at h
    obtain ⟨t, ht, rfl⟩ := Option.map_eq_some_iff.mp h
    have hlt := u.isLt
    have hrest := ih ht
    rw [utf8ToUtf16] at hrest ⊢
    rw [List.flatMap_cons, hrest, utf16Units_small (by omega), BitVec.ofNat_toNat,
      BitVec.setWidth_eq]
    rfl

theorem utf8ToUtf16_replicate {c : Char} {u : BitVec 16} (hc : utf16Units c = [u]) (n : Nat) :
    utf8ToUtf16 (List.replicate n c) = List.replicate n u := by
  rw [utf8ToUtf16]
  induction n with
  | zero => rfl
  | succ n ih => rw [List.replicate_succ, List.flatMap_cons, ih, hc, List.replicate_succ,
      List.singleton_append]

/-! ### What is put -/

theorem Writes.lift {α : Type} {o : Option α} {a : α} {k : α → Packet Unit} {bytes : List Byte}
    (ho : o = some a) (h : Writes (k a) bytes) : Writes (liftM o >>= k) bytes := by
  subst ho
  exact h

variable {units : List (BitVec 16)} (rest : List (BitVec 16))

theorem countUnits_eq (hunits : 0 ∉ units) (passes : Nat) {i : Nat} (hi : i ≤ units.length) :
    countUnits (units ++ 0 :: rest) passes i = some (min (units.length - i) passes) := by
  induction passes generalizing i with
  | zero =>
    rw [Nat.min_zero]
    rfl
  | succ passes ih =>
    rw [countUnits]
    obtain hlt | rfl := Nat.lt_or_eq_of_le hi
    · have hne : units[i] ≠ 0 := fun hzero => hunits (hzero ▸ List.getElem_mem hlt)
      rw [List.getElem?_append_left hlt, List.getElem?_eq_getElem hlt, Option.bind_eq_bind,
        Option.bind_some, if_pos hne, ih hlt]
      show some (min (units.length - (i + 1)) passes + 1) = some (min (units.length - i) (passes + 1))
      congr 1
      omega
    · rw [List.getElem?_append_right (Nat.le_refl _), Nat.sub_self, List.getElem?_cons_zero,
        Option.bind_eq_bind, Option.bind_some, if_neg (not_not.mpr rfl), Nat.zero_min]
      rfl

theorem writes_putUtf16String (hunits : 0 ∉ units) {count : Nat}
    (hcount : count = min units.length (MTP_STRING_MAX_CHARACTER_NUMBER + 1)) :
    Writes (putUtf16String (units ++ 0 :: rest))
      (digits 1 (BitVec.ofNat 8 (if count > 0 then count + 1 else 0)).toNat ++
        (unitBytes (units.take count) ++ if count > 0 then digits 2 0 else [])) := by
  have hcounted : countUnits (units ++ 0 :: rest) (MTP_STRING_MAX_CHARACTER_NUMBER + 1) 0 =
      some count := by
    rw [countUnits_eq rest hunits _ (Nat.zero_le _), hcount, Nat.sub_zero]
  have htake : (units ++ 0 :: rest).take count = units.take count :=
    List.take_append_of_le_length (by omega)
  rw [putUtf16String]
  apply Writes.lift hcounted
  rw [htake]
  apply (writes_putUInt 1 _).bind
  apply (writes_putUnits _).bind
  apply Writes.ite
  · intro _
    exact writes_putUInt 2 0
  · intro _
    exact Writes.nil

theorem writes_putUtf16String_short (hunits : 0 ∉ units)
    (hlength : units.length < MTP_STRING_MAX_CHARACTER_NUMBER) :
    Writes (putUtf16String (units ++ 0 :: rest)) (countedBytes units) := by
  have hmax : MTP_STRING_MAX_CHARACTER_NUMBER = 255 := rfl
  have hwrites := writes_putUtf16String rest hunits
    (show units.length = min units.length (MTP_STRING_MAX_CHARACTER_NUMBER + 1) by omega)
  rw [List.take_length] at hwrites
  rw [countedBytes]
  by_cases hempty : units.length = 0
  · obtain rfl := List.eq_nil_of_length_eq_zero hempty
    exact hwrites
  · have hbyte : (BitVec.ofNat 8 (units.length + 1)).toNat = units.length + 1 := by
      rw [BitVec.toNat_ofNat]
      exact Nat.mod_eq_of_lt (by omega)
    rw [if_neg hempty, unitBytes, List.flatMap_append]
    rw [if_pos (Nat.pos_of_ne_zero hempty), if_pos (Nat.pos_of_ne_zero hempty), hbyte] at hwrites
    exact hwrites

theorem writes_putStringBuffer {s : List Char} (hunits : 0 ∉ units)
    (hvalid : utf16ToUtf8 units = some s) :
    Writes (putStringBuffer (units ++ 0 :: rest))
      (countedBytes (units.take (MTP_STRING_MAX_CHARACTER_NUMBER - 1))) := by
  have htake : (units ++ 0 :: rest).takeWhile (fun u => decide (u ≠ 0)) = units := by
    rw [List.takeWhile_append_of_pos]
    · exact List.append_nil _
    · intro u hu
      exact decide_eq_true fun hzero => hunits (hzero ▸ hu)
  have hset : set (units ++ 0 :: rest) = some s := by
    rw [set, if_pos (List.mem_append_right _ List.mem_cons_self), htake, hvalid]
  have hwrites := writes_writeToPacket s
  rw [utf8ToUtf16_utf16ToUtf8 hvalid] at hwrites
  exact Writes.lift hset hwrites

/-! ### Agreement -/

/-- A call puts these bytes behind the data of a packet. -/
def Appends (w : Packet Unit) (packet : MtpDataPacket) (bytes : List Byte) : Prop :=
  ∃ packet', w packet = some ((), packet') ∧ packet'.mBuffer = packet.mBuffer ++ bytes ∧
    packet'.mOffset = packet'.mBuffer.length

theorem Appends.unique {w : Packet Unit} {packet : MtpDataPacket} {bytes bytes' : List Byte}
    (h : Appends w packet bytes) (h' : Appends w packet bytes') : bytes = bytes' := by
  obtain ⟨packet₁, hw, hbuffer, -⟩ := h
  obtain ⟨packet₂, hw', hbuffer', -⟩ := h'
  rw [hw] at hw'
  obtain ⟨-, rfl⟩ := Prod.mk.inj (Option.some.inj hw')
  exact List.append_cancel_left (hbuffer.symm.trans hbuffer')

/-- Both calls put the same bytes, a count and as many units, and whoever reads a string there is at
the next field then. -/
def Agree (string : List (BitVec 16)) (packet : MtpDataPacket) : Prop :=
  ∃ (count : BitVec 8) (following : List (BitVec 16)),
    Appends (putUtf16String string) packet (digits 1 count.toNat ++ unitBytes following) ∧
    Appends (putStringBuffer string) packet (digits 1 count.toNat ++ unitBytes following) ∧
    count.toNat = following.length ∧
    ∀ buffer mString, Reads (Left buffer) (readFromPacketInto mString)
      (digits 1 count.toNat ++ unitBytes following) fun _ => True

theorem countedBytes_eq (hlength : units.length < MTP_STRING_MAX_CHARACTER_NUMBER) :
    ∃ (count : BitVec 8) (following : List (BitVec 16)),
      countedBytes units = digits 1 count.toNat ++ unitBytes following ∧
        count.toNat = following.length := by
  have hmax : MTP_STRING_MAX_CHARACTER_NUMBER = 255 := rfl
  rw [countedBytes]
  split
  · exact ⟨0, [], rfl, rfl⟩
  · have hbyte : (BitVec.ofNat 8 (units.length + 1)).toNat = units.length + 1 := by
      rw [BitVec.toNat_ofNat]
      exact Nat.mod_eq_of_lt (by omega)
    refine ⟨BitVec.ofNat 8 (units.length + 1), units ++ [0], by rw [hbyte], ?_⟩
    rw [hbyte, List.length_append, List.length_singleton]

theorem length_unitBytes (units : List (BitVec 16)) :
    (unitBytes units).length = 2 * units.length := by
  induction units with
  | nil => rfl
  | cons u units ih =>
    rw [unitBytes, List.flatMap_cons, List.length_append, ← unitBytes, ih, length_digits,
      List.length_cons]
    omega

theorem length_countedBytes (units : List (BitVec 16)) :
    (countedBytes units).length ≤ 2 * units.length + 3 := by
  rw [countedBytes]
  split
  · rw [length_digits]
    omega
  · rw [List.length_append, length_digits, length_unitBytes, List.length_append,
      List.length_singleton]
    omega

/-- The count of a long string is not the one that `MtpStringBuffer` puts. -/
theorem not_agree_of_long {s : List Char} (hunits : 0 ∉ units)
    (hvalid : utf16ToUtf8 units = some s) {packet : MtpDataPacket}
    (hend : packet.mOffset = packet.mBuffer.length)
    (hroom : packet.mOffset + 515 + MTP_BUFFER_SIZE < 2 ^ 31)
    (hlong : MTP_STRING_MAX_CHARACTER_NUMBER ≤ units.length) :
    ¬Agree (units ++ 0 :: rest) packet := by
  rintro ⟨count, following, hfirst, hsecond, -, -⟩
  have hmax : MTP_STRING_MAX_CHARACTER_NUMBER = 255 := rfl
  have hcut : (units.take (MTP_STRING_MAX_CHARACTER_NUMBER - 1)).length = 254 := by
    rw [List.length_take]
    omega
  have hcutBytes := length_countedBytes (units.take (MTP_STRING_MAX_CHARACTER_NUMBER - 1))
  have hputs : Appends (putStringBuffer (units ++ 0 :: rest)) packet _ :=
    writes_putStringBuffer rest hunits hvalid packet hend (by omega)
  generalize hcountEq : min units.length (MTP_STRING_MAX_CHARACTER_NUMBER + 1) = n
  have hn : n = 255 ∨ n = 256 := by omega
  have hpos : n > 0 := by omega
  have hwrites := writes_putUtf16String rest hunits hcountEq.symm
  rw [if_pos hpos, if_pos hpos] at hwrites
  have hbytes : (digits 1 (BitVec.ofNat 8 (n + 1)).toNat ++
      (unitBytes (units.take n) ++ digits 2 0)).length ≤ 515 := by
    have htake := List.length_take_le n units
    rw [List.length_append, List.length_append, length_unitBytes, length_digits, length_digits]
    omega
  have hputs' : Appends (putUtf16String (units ++ 0 :: rest)) packet _ :=
    hwrites packet hend (by omega)
  have hsame := (hputs'.unique hfirst).trans (hsecond.unique hputs)
  rw [countedBytes, if_neg (by omega), hcut] at hsame
  have hhead := congrArg List.head? hsame
  have hlow : (BitVec.ofNat 8 (n + 1)).toNat = 0 ∨ (BitVec.ofNat 8 (n + 1)).toNat = 1 := by
    rw [BitVec.toNat_ofNat]
    omega
  obtain hzero | hone := hlow
  · rw [hzero] at hhead
    cases hhead
  · rw [hone] at hhead
    cases hhead

/-- The writers agree on the strings of at most 254 units. -/
theorem putString_agree_iff {s : List Char} (hunits : 0 ∉ units)
    (hvalid : utf16ToUtf8 units = some s) {packet : MtpDataPacket}
    (hend : packet.mOffset = packet.mBuffer.length)
    (hroom : packet.mOffset + 515 + MTP_BUFFER_SIZE < 2 ^ 31) :
    Agree (units ++ 0 :: rest) packet ↔ units.length ≤ 254 := by
  have hmax : MTP_STRING_MAX_CHARACTER_NUMBER = 255 := rfl
  constructor
  · intro hagree
    by_contra hlong
    exact not_agree_of_long rest hunits hvalid hend hroom (by omega) hagree
  · intro hshort
    have hlength := length_countedBytes units
    have htake : units.take (MTP_STRING_MAX_CHARACTER_NUMBER - 1) = units :=
      List.take_of_length_le (by omega)
    have hbuffer := writes_putStringBuffer rest hunits hvalid packet hend (by rw [htake]; omega)
    rw [htake] at hbuffer
    have hstring := writes_putUtf16String_short rest hunits (by omega) packet hend (by omega)
    obtain ⟨count, following, hbytes, hcount⟩ :=
      countedBytes_eq (show units.length < MTP_STRING_MAX_CHARACTER_NUMBER by omega)
    rw [hbytes] at hbuffer hstring
    refine ⟨count, following, hstring, hbuffer, hcount, ?_⟩
    intro buffer mString reader fields hleft
    rw [← hbytes] at hleft
    obtain ⟨reader', hleft', hread⟩ :=
      readFromPacketInto_counted hunits (by omega) mString hleft
    rw [hvalid] at hread
    have hsome : ∃ mString', (if units.length = 0 then some mString else some s) = some mString' := by
      split
      · exact ⟨_, rfl⟩
      · exact ⟨_, rfl⟩
    obtain ⟨mString', hmString⟩ := hsome
    rw [hmString] at hread
    exact ⟨mString', reader', hread, trivial, hleft'⟩

/-- A string of 254 units that ends with a pair, in front of something else, and one of 300. -/
theorem putString_agree_full :
    Agree ((List.replicate 252 0x61 ++ [0xD83D, 0xDE00]) ++ 0 :: [7, 7]) reset ∧
      ¬Agree (List.replicate 300 0x61 ++ 0 :: []) reset := by
  have hpair : utf16ToUtf8 (List.replicate 252 0x61 ++ [0xD83D, 0xDE00]) =
      some (List.replicate 252 'a' ++ ['😀']) := by decide +kernel
  have hlong : utf16ToUtf8 (List.replicate 300 0x61) = some (List.replicate 300 'a') := by
    decide +kernel
  have hlength : (List.replicate 252 (0x61 : BitVec 16) ++ [0xD83D, 0xDE00]).length ≤ 254 := by
    rw [List.length_append, List.length_replicate, List.length_cons, List.length_singleton]
  refine ⟨(putString_agree_iff [7, 7] (by decide +kernel) hpair rfl (by decide)).mpr hlength, ?_⟩
  rw [putString_agree_iff [] (by decide +kernel) hlong rfl (by decide), List.length_replicate]
  decide

/-- The count of 255 units and the terminator is 0. -/
theorem putString_disagree :
    ¬Agree (List.replicate 255 0x61 ++ 0 :: []) reset := by
  have hunits : (0 : BitVec 16) ∉ List.replicate 255 0x61 := fun hzero =>
    absurd (List.eq_of_mem_replicate hzero) (by decide)
  have hvalid := utf16ToUtf8_utf8ToUtf16 (List.replicate 255 'a')
  rw [utf8ToUtf16_replicate rfl] at hvalid
  exact not_agree_of_long [] hunits hvalid rfl (by decide) List.length_replicate.ge

end MediaFramework.Mtp
