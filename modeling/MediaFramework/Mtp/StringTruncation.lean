import MediaFramework.Mtp.StringWriters

/-!
# Strings that are cut

`writeToPacket` leaves a long string with its first 254 units. They are a string again unless the
last of them is the first half of a pair, and then no reader takes them.
-/

namespace MediaFramework.Mtp

open LittleEndian Consume

/-- The units of a character are one that is no half of a pair, or two halves. -/
theorem utf16Units_cases (c : Char) :
    (∃ u, utf16Units c = [u] ∧ ¬IsHigh u) ∨
      ∃ u v, utf16Units c = [u, v] ∧ IsHigh u ∧ ¬IsHigh v := by
  have hvalid : c.toNat < 0xD800 ∨ 0xDFFF < c.toNat ∧ c.toNat < 0x110000 := c.valid
  have hunit : ∀ n, n < 2 ^ 16 → (BitVec.ofNat 16 n).toNat = n := by
    intro n hn
    rw [BitVec.toNat_ofNat]
    exact Nat.mod_eq_of_lt hn
  rw [utf16Units]
  split
  next hsmall =>
    refine .inl ⟨_, rfl, ?_⟩
    rw [IsHigh, hunit _ (by omega)]
    omega
  next hlarge =>
    refine .inr ⟨_, _, rfl, ?_, ?_⟩
    · rw [IsHigh, hunit _ (by omega)]
      omega
    · rw [IsHigh, hunit _ (by omega)]
      omega

/-- What is kept of a string: characters, or characters and the first half of a pair. -/
inductive Kept (s : List Char) (units : List (BitVec 16)) : Prop
  | whole (s' : List Char) (hpart : s' <+: s) (hunits : units = utf8ToUtf16 s')
    (hlast : ∀ u ∈ units.getLast?, ¬IsHigh u)
  | half (hlast : ∃ u ∈ units.getLast?, IsHigh u) (hnone : utf16ToUtf8 units = none)

theorem kept_cons (c : Char) {s : List Char} {units : List (BitVec 16)} (h : Kept s units) :
    Kept (c :: s) (utf16Units c ++ units) := by
  have hown : ∀ u ∈ (utf16Units c).getLast?, ¬IsHigh u := by
    obtain ⟨u, hu, hlow⟩ | ⟨u, v, huv, -, hlow⟩ := utf16Units_cases c
    · rw [hu]
      rintro _ ⟨⟩
      exact hlow
    · rw [huv]
      rintro _ ⟨⟩
      exact hlow
  cases h with
  | whole s' hpart hunits hlast =>
    refine .whole (c :: s') ((List.prefix_cons_inj c).mpr hpart) ?_ ?_
    · rw [hunits, utf8ToUtf16, utf8ToUtf16, List.flatMap_cons]
    · intro u hu
      rw [List.getLast?_append] at hu
      obtain hlater | ⟨-, hfirst⟩ := Option.or_eq_some_iff.mp hu
      · exact hlast u hlater
      · exact hown u hfirst
  | half hlast hnone =>
    obtain ⟨u, hu, hhigh⟩ := hlast
    refine .half ⟨u, ?_, hhigh⟩ ?_
    · rw [List.getLast?_append, hu]
      rfl
    · rw [utf16ToUtf8_units, hnone, Option.map_none]

theorem kept_take (s : List Char) (k : Nat) : Kept s ((utf8ToUtf16 s).take k) := by
  induction s generalizing k with
  | nil => exact .whole [] List.prefix_rfl List.take_nil (by rw [utf8ToUtf16]; simp)
  | cons c s ih =>
    have hsplit : utf8ToUtf16 (c :: s) = utf16Units c ++ utf8ToUtf16 s := by
      rw [utf8ToUtf16, utf8ToUtf16, List.flatMap_cons]
    rw [hsplit]
    by_cases hwhole : (utf16Units c).length ≤ k
    · obtain ⟨m, rfl⟩ := Nat.exists_eq_add_of_le hwhole
      rw [List.take_length_add_append]
      exact kept_cons c (ih m)
    · -- nothing is kept, or half of the pair
      rw [List.take_append_of_le_length (Nat.le_of_not_le hwhole)]
      cases k with
      | zero => exact .whole [] List.nil_prefix rfl (by simp)
      | succ k =>
        obtain ⟨u, hu, -⟩ | ⟨u, v, huv, hhigh, -⟩ := utf16Units_cases c
        · rw [hu] at hwhole
          exact absurd (Nat.le_add_left 1 k) hwhole
        · rw [huv] at hwhole ⊢
          obtain rfl : k = 0 := by
            simp only [List.length_cons, List.length_nil] at hwhole
            omega
          refine .half ⟨u, rfl, hhigh⟩ ?_
          show utf16ToUtf8 [u] = none
          have hhigh' : 0xD800 ≤ u.toNat ∧ u.toNat < 0xDC00 := hhigh
          rw [utf16ToUtf8, if_pos ⟨hhigh'.1, by omega⟩]

/-- The string is put, and whoever reads it into a buffer gets it back, or a prefix if it is long. -/
def ReadsBack (s mString : List Char) (packet : MtpDataPacket) : Prop :=
  ∃ bytes, Appends (writeToPacket s) packet bytes ∧
    ∀ buffer, Reads (Left buffer) (readFromPacketInto mString) bytes fun result =>
      if (utf8ToUtf16 s).length ≤ 254 then result = s else result <+: s

theorem units_ne_zero {s : List Char} (hs : ∀ c ∈ s, c.toNat ≠ 0) : 0 ∉ utf8ToUtf16 s := by
  intro hzero
  obtain ⟨c, hc, hu⟩ := List.mem_flatMap.mp hzero
  exact utf16Units_ne_zero (hs c hc) 0 hu rfl

theorem utf8ToUtf16_injective : Function.Injective utf8ToUtf16 := by
  intro s t h
  have hs := utf16ToUtf8_utf8ToUtf16 s
  rw [h, utf16ToUtf8_utf8ToUtf16] at hs
  exact (Option.some.inj hs).symm

theorem utf8ToUtf16_eq_nil {s : List Char} (h : utf8ToUtf16 s = []) : s = [] :=
  utf8ToUtf16_injective h

theorem zero_notMem_take {s : List Char} (hs : ∀ c ∈ s, c.toNat ≠ 0) :
    0 ∉ (utf8ToUtf16 s).take (MTP_STRING_MAX_CHARACTER_NUMBER - 1) :=
  fun hzero => units_ne_zero hs (List.mem_of_mem_take hzero)

theorem length_take_lt (s : List Char) :
    ((utf8ToUtf16 s).take (MTP_STRING_MAX_CHARACTER_NUMBER - 1)).length <
      MTP_STRING_MAX_CHARACTER_NUMBER := by
  have hmax : MTP_STRING_MAX_CHARACTER_NUMBER = 255 := rfl
  have hle := List.length_take_le (MTP_STRING_MAX_CHARACTER_NUMBER - 1) (utf8ToUtf16 s)
  omega

theorem appends_writeToPacket (s : List Char) {packet : MtpDataPacket}
    (hend : packet.mOffset = packet.mBuffer.length)
    (hroom : packet.mOffset + 511 + MTP_BUFFER_SIZE < 2 ^ 31) :
    Appends (writeToPacket s) packet
      (countedBytes ((utf8ToUtf16 s).take (MTP_STRING_MAX_CHARACTER_NUMBER - 1))) := by
  have hmax : MTP_STRING_MAX_CHARACTER_NUMBER = 255 := rfl
  have hlt := length_take_lt s
  have hbytes := length_countedBytes
    ((utf8ToUtf16 s).take (MTP_STRING_MAX_CHARACTER_NUMBER - 1))
  exact writes_writeToPacket s packet hend (by omega)

/-- Some packet holds these bytes and no more. -/
theorem exists_left (bytes : List Byte) : ∃ buffer reader, Left buffer reader (bytes ++ []) :=
  ⟨bytes, ⟨bytes, MTP_BUFFER_SIZE, 0, Nat.zero_le _⟩, rfl, (List.append_nil _).symm⟩

/-- A string that is cut behind the first half of a pair does not come back. -/
theorem not_readsBack_of_high {s : List Char} (mString : List Char)
    (hs : ∀ c ∈ s, c.toNat ≠ 0) {packet : MtpDataPacket}
    (hend : packet.mOffset = packet.mBuffer.length)
    (hroom : packet.mOffset + 511 + MTP_BUFFER_SIZE < 2 ^ 31) {u : BitVec 16}
    (hu : u ∈ ((utf8ToUtf16 s).take (MTP_STRING_MAX_CHARACTER_NUMBER - 1)).getLast?)
    (hhigh : IsHigh u) : ¬ReadsBack s mString packet := by
  rintro ⟨bytes, hbytes, hreads⟩
  obtain rfl := (appends_writeToPacket s hend hroom).unique hbytes
  obtain ⟨buffer, reader, hleft⟩ := exists_left
    (countedBytes ((utf8ToUtf16 s).take (MTP_STRING_MAX_CHARACTER_NUMBER - 1)))
  obtain ⟨result, reader', hread, -, -⟩ := hreads _ _ [] hleft
  obtain ⟨reader₁, -, hread₁⟩ :=
    readFromPacketInto_counted (zero_notMem_take hs) (length_take_lt s) mString hleft
  have hsome : ((utf8ToUtf16 s).take (MTP_STRING_MAX_CHARACTER_NUMBER - 1)).length ≠ 0 := by
    intro hnil
    rw [List.eq_nil_of_length_eq_zero hnil] at hu
    cases hu
  rw [hread, if_neg hsome] at hread₁
  cases kept_take s (MTP_STRING_MAX_CHARACTER_NUMBER - 1) with
  | whole s' hpart hunits hlast => exact hlast u hu hhigh
  | half hlast hnone =>
    rw [hnone] at hread₁
    cases hread₁

theorem readsBack_of_not_high {s mString : List Char} (hs : ∀ c ∈ s, c.toNat ≠ 0)
    {packet : MtpDataPacket} (hend : packet.mOffset = packet.mBuffer.length)
    (hroom : packet.mOffset + 511 + MTP_BUFFER_SIZE < 2 ^ 31)
    (hhigh : ∀ u ∈ ((utf8ToUtf16 s).take (MTP_STRING_MAX_CHARACTER_NUMBER - 1)).getLast?,
      ¬IsHigh u)
    (hempty : s = [] → mString = []) : ReadsBack s mString packet := by
  have hmax : MTP_STRING_MAX_CHARACTER_NUMBER = 255 := rfl
  refine ⟨_, appends_writeToPacket s hend hroom, ?_⟩
  intro buffer reader fields hleft
  obtain ⟨reader', hleft', hread⟩ :=
    readFromPacketInto_counted (zero_notMem_take hs) (length_take_lt s) mString hleft
  by_cases hnil : s = []
  · subst hnil
    exact ⟨mString, reader', hread, by rw [hempty rfl]; rfl, hleft'⟩
  have hsome : ((utf8ToUtf16 s).take (MTP_STRING_MAX_CHARACTER_NUMBER - 1)).length ≠ 0 := by
    have hpos : (utf8ToUtf16 s).length ≠ 0 := fun hzero =>
      hnil (utf8ToUtf16_eq_nil (List.eq_nil_of_length_eq_zero hzero))
    rw [List.length_take]
    omega
  rw [if_neg hsome] at hread
  cases kept_take s (MTP_STRING_MAX_CHARACTER_NUMBER - 1) with
  | half hlast hnone =>
    obtain ⟨u, hu, hbad⟩ := hlast
    exact absurd hbad (hhigh u hu)
  | whole s' hpart hunits hlast =>
    rw [hunits, utf16ToUtf8_utf8ToUtf16] at hread
    refine ⟨s', reader', hread, ?_, hleft'⟩
    split
    next hshort =>
      rw [List.take_of_length_le (by omega)] at hunits
      exact (utf8ToUtf16_injective hunits).symm
    · exact hpart

/-- A string comes back, cut if it is long, unless the first half of a pair is the last of its
first 254 units. An empty string comes back in an empty buffer. -/
theorem writeToPacket_readsBack_iff {s : List Char} (mString : List Char)
    (hs : ∀ c ∈ s, c.toNat ≠ 0) {packet : MtpDataPacket}
    (hend : packet.mOffset = packet.mBuffer.length)
    (hroom : packet.mOffset + 511 + MTP_BUFFER_SIZE < 2 ^ 31) :
    ReadsBack s mString packet ↔
      (∀ u ∈ ((utf8ToUtf16 s).take 254).getLast?, ¬IsHigh u) ∧ (s = [] → mString = []) := by
  constructor
  · intro hback
    refine ⟨fun u hu hhigh => not_readsBack_of_high mString hs hend hroom hu hhigh hback, ?_⟩
    rintro rfl
    obtain ⟨bytes, hbytes, hreads⟩ := hback
    obtain rfl := (appends_writeToPacket [] hend hroom).unique hbytes
    obtain ⟨buffer, reader, hleft⟩ := exists_left
      (countedBytes ((utf8ToUtf16 []).take (MTP_STRING_MAX_CHARACTER_NUMBER - 1)))
    obtain ⟨result, reader', hread, hresult, -⟩ := hreads _ _ [] hleft
    obtain ⟨reader₁, -, hread₁⟩ :=
      readFromPacketInto_counted (zero_notMem_take hs) (length_take_lt []) mString hleft
    rw [hread] at hread₁
    obtain ⟨rfl, -⟩ := Prod.mk.inj (Option.some.inj hread₁)
    exact hresult
  · rintro ⟨hhigh, hempty⟩
    exact readsBack_of_not_high hs hend hroom hhigh hempty

theorem utf8ToUtf16_replicate_append {c : Char} {u : BitVec 16} (hc : utf16Units c = [u]) (n : Nat)
    (s : List Char) :
    utf8ToUtf16 (List.replicate n c ++ s) = List.replicate n u ++ utf8ToUtf16 s := by
  have hfront := utf8ToUtf16_replicate hc n
  rw [utf8ToUtf16] at hfront ⊢
  rw [List.flatMap_append, hfront, ← utf8ToUtf16]

theorem noNul_replicate_append {a c : Char} (ha : a.toNat ≠ 0) (hc : c.toNat ≠ 0) (n : Nat) :
    ∀ b ∈ List.replicate n a ++ [c], b.toNat ≠ 0 := by
  intro b hb
  obtain hfirst | hlast := List.mem_append.mp hb
  · rwa [List.eq_of_mem_replicate hfirst]
  · rwa [List.mem_singleton.mp hlast]

/-- A pair that is the last that fits, and a string that is cut behind its first 254 units. -/
theorem readsBack_full :
    ReadsBack (List.replicate 252 'a' ++ ['😀']) ['b'] reset ∧
      ReadsBack (List.replicate 300 'é') [] reset := by
  constructor
  · have hchars : ∀ c ∈ List.replicate 252 'a' ++ ['😀'], c.toNat ≠ 0 :=
      noNul_replicate_append (by decide) (by decide) 252
    have hunits : utf8ToUtf16 (List.replicate 252 'a' ++ ['😀']) =
        List.replicate 252 0x61 ++ [0xD83D, 0xDE00] :=
      utf8ToUtf16_replicate_append rfl 252 ['😀']
    have hlength : (List.replicate 252 (0x61 : BitVec 16) ++ [0xD83D, 0xDE00]).length ≤ 254 := by
      rw [List.length_append, List.length_replicate, List.length_cons, List.length_singleton]
    refine (writeToPacket_readsBack_iff ['b'] hchars rfl (by decide)).mpr ⟨?_, fun hnil => ?_⟩
    · intro u hu
      rw [hunits, List.take_of_length_le hlength, List.getLast?_append] at hu
      obtain rfl : 0xDE00 = u := Option.some.inj hu
      decide
    · cases List.append_eq_nil_iff.mp hnil |>.2
  · have hchars : ∀ c ∈ List.replicate 300 'é', c.toNat ≠ 0 := by
      intro c hc
      rw [List.eq_of_mem_replicate hc]
      decide
    have hunits : utf8ToUtf16 (List.replicate 300 'é') = List.replicate 300 0xE9 :=
      utf8ToUtf16_replicate rfl 300
    refine (writeToPacket_readsBack_iff [] hchars rfl (by decide)).mpr ⟨?_, fun _ => rfl⟩
    intro u hu
    rw [hunits, List.take_replicate] at hu
    obtain rfl := List.eq_of_mem_replicate (List.mem_of_mem_getLast? hu)
    decide

/-- The pair behind 253 units is cut in the middle. -/
theorem not_readsBack_split :
    ¬ReadsBack (List.replicate 253 'a' ++ ['😀']) [] reset := by
  have hunits : utf8ToUtf16 (List.replicate 253 'a' ++ ['😀']) =
      List.replicate 253 0x61 ++ [0xD83D, 0xDE00] :=
    utf8ToUtf16_replicate_append rfl 253 ['😀']
  have hcut : (utf8ToUtf16 (List.replicate 253 'a' ++ ['😀'])).take
      (MTP_STRING_MAX_CHARACTER_NUMBER - 1) = List.replicate 253 0x61 ++ [0xD83D] := by
    have hlength : MTP_STRING_MAX_CHARACTER_NUMBER - 1 =
        (List.replicate 253 (0x61 : BitVec 16)).length + 1 := List.length_replicate.symm
    rw [hunits, hlength, List.take_length_add_append]
    rfl
  have hchars : ∀ c ∈ List.replicate 253 'a' ++ ['😀'], c.toNat ≠ 0 :=
    noNul_replicate_append (by decide) (by decide) 253
  have hlast : (0xD83D : BitVec 16) ∈ ((utf8ToUtf16 (List.replicate 253 'a' ++ ['😀'])).take
      (MTP_STRING_MAX_CHARACTER_NUMBER - 1)).getLast? := by
    rw [hcut, List.getLast?_concat]
    rfl
  exact not_readsBack_of_high [] hchars rfl (by decide) hlast (by decide)

end MediaFramework.Mtp
