import MediaFramework.ClearKey.InitData
import MediaFramework.Foundation.Base64RoundTrip

/-!
# Key requests

The fields that `parsePssh` compares stand in the init data only where the init data reach that far.
What is accepted is a `pssh` box, and the request lists its key ids.
-/

namespace MediaFramework.ClearKey

variable {initData : ByteVector} {after : Nat → Byte}

/-! ### Boxes -/

/-- A `pssh` box of version 1, whose flags are zero, with an accepted system id and 4 bytes behind
its key ids. -/
structure PsshBox (size : Nat) (box : List Byte) (kids : List (List Byte)) : Prop where
  count_lt : kids.length < 2 ^ 32
  length_kid : ∀ kid ∈ kids, kid.length = kKeyIdSize
  layout : ∃ systemId ∈ [kCommonPsshBoxUUID, kClearKeyUUID], ∃ dataSize : List Byte,
    dataSize.length = 4 ∧
      box = Endian.encode true 4 size ++ psshIdentifier ++ psshVersion1 ++ systemId ++
        Endian.encode true 4 kids.length ++ kids.flatten ++ dataSize

/-! ### Fields -/

section

variable {memory : Nat → Byte} {readPosition n size : Nat} {valid : List Byte → Bool}
variable {next : Nat → Parsed}

theorem validate_status : (validate memory readPosition n valid next).status = .ok ↔
    valid (Blocks.segment memory readPosition n) = true ∧ (next (readPosition + n)).status = .ok := by
  rw [validate]
  split
  next hvalid => exact ⟨fun h => ⟨hvalid, h⟩, fun h => h.2⟩
  next hvalid => exact ⟨fun h => (by cases h), fun h => absurd h.1 hvalid⟩

theorem validate_keyIds (h : valid (Blocks.segment memory readPosition n) = true) :
    (validate memory readPosition n valid next).keyIds = (next (readPosition + n)).keyIds := by
  rw [validate, if_pos h]

/-- A field is read to its end, and what is behind it where it is valid. -/
theorem validate_reads (hn : 0 < n) :
    (∀ i ∈ (validate memory readPosition n valid next).reads, i < size) ↔
      readPosition + n ≤ size ∧ (valid (Blocks.segment memory readPosition n) = true →
        ∀ i ∈ (next (readPosition + n)).reads, i < size) := by
  have hfield : (∀ i ∈ List.range' readPosition n, i < size) ↔ readPosition + n ≤ size := by
    simp only [List.mem_range'_1]
    refine ⟨fun h => ?_, fun h i hi => by omega⟩
    have hlast := h (readPosition + n - 1) ⟨by omega, by omega⟩
    omega
  rw [validate]
  split
  next hvalid =>
    simp only [List.mem_append, or_imp, forall_and, hfield, hvalid, forall_const]
  next hvalid => simp only [hfield, hvalid, false_implies, and_true, Bool.false_eq_true]

end

/-- The memory of a field that the vector holds. -/
theorem segment_memory {p n : Nat} (h : p + n ≤ initData.size) :
    Blocks.segment (initData.memory after) p n = (initData.bytes.drop p).take n :=
  Blocks.segment_getD initData.bytes after h

/-! ### What is accepted -/

theorem mem_isClearKeyUUID {uuid : List Byte} :
    isClearKeyUUID uuid = true ↔ uuid ∈ [kCommonPsshBoxUUID, kClearKeyUUID] := by
  simp [isClearKeyUUID]

/-- The fields one after another. -/
theorem parsePssh_status : (parsePssh initData after).status = .ok ↔
    Blocks.segment (initData.memory after) 0 4 = Endian.encode true 4 (initData.size % 2 ^ 32) ∧
    Blocks.segment (initData.memory after) 4 4 = psshIdentifier ∧
    Blocks.segment (initData.memory after) 8 4 = psshVersion1 ∧
    Blocks.segment (initData.memory after) 12 16 ∈ [kCommonPsshBoxUUID, kClearKeyUUID] ∧
    initData.size = 36 + Endian.decode true (Blocks.segment (initData.memory after) 28 4) * 16 := by
  have hcount := @Endian.decode_lt true (Blocks.segment (initData.memory after) 28 4)
  have hsize := initData.size_lt
  have hbytes : initData.bytes.length = initData.size := rfl
  have hkeyIds : (parseKeyIds initData (initData.memory after) 28).status = .ok ↔
      initData.size = 36 + Endian.decode true (Blocks.segment (initData.memory after) 28 4) * 16 := by
    rw [Blocks.length_segment] at hcount
    rw [parseKeyIds, kKeyIdSize]
    split
    next hne => exact ⟨fun h => (by cases h), fun h => absurd h (by omega)⟩
    next heq => exact ⟨fun _ => by omega, fun _ => rfl⟩
  rw [parsePssh, validate_status, validate_status, validate_status, validate_status, beq_iff_eq,
    beq_iff_eq, beq_iff_eq, mem_isClearKeyUUID]
  exact and_congr_right fun _ => and_congr_right fun _ => and_congr_right fun _ =>
    and_congr_right fun _ => hkeyIds

theorem encode_mod (size : Nat) :
    Endian.encode true 4 (size % 2 ^ 32) = Endian.encode true 4 size := by
  have hvalue : Endian.decode true (Endian.encode true 4 size) = size % 2 ^ 32 := by
    rw [Endian.decode, Endian.encode, if_pos rfl, if_pos rfl, List.reverse_reverse,
      LittleEndian.value_digits]
    rfl
  rw [← hvalue, Endian.encode_decode (Endian.length_encode true 4 size)]

theorem length_systemId {systemId : List Byte} (h : systemId ∈ [kCommonPsshBoxUUID, kClearKeyUUID]) :
    systemId.length = 16 := by
  obtain rfl | rfl : systemId = kCommonPsshBoxUUID ∨ systemId = kClearKeyUUID := by
    simpa using h
  · rfl
  · rfl

/-- The key ids that are accepted. -/
theorem parsePssh_keyIds (h : (parsePssh initData after).status = .ok) :
    (parsePssh initData after).keyIds =
      (List.range (Endian.decode true (Blocks.segment (initData.memory after) 28 4))).map
        fun i => 32 + i * 16 := by
  obtain ⟨hsize, hbox, hversion, hsystem, hcount⟩ := parsePssh_status.mp h
  have hlt := initData.size_lt
  have hbytes : initData.bytes.length = initData.size := rfl
  have hsteps : (parsePssh initData after).keyIds =
      (parseKeyIds initData (initData.memory after) 28).keyIds := by
    refine (validate_keyIds ?_).trans ((validate_keyIds ?_).trans ((validate_keyIds ?_).trans
      (validate_keyIds ?_)))
    · exact beq_iff_eq.mpr hsize
    · exact beq_iff_eq.mpr hbox
    · exact beq_iff_eq.mpr hversion
    · exact mem_isClearKeyUUID.mpr hsystem
  rw [hsteps, parseKeyIds, kKeyIdSize]
  split
  next hne => exact absurd (by omega) hne
  next => rfl

/-- What is accepted is a box up to the bits of its size that do not fit in the size field. -/
theorem box_of_parsePssh (h : (parsePssh initData after).status = .ok) :
    PsshBox initData.size initData.bytes
      ((parsePssh initData after).keyIds.map (Blocks.segment (initData.memory after) · kKeyIdSize)) := by
  have hkeyIds := parsePssh_keyIds h
  obtain ⟨hsize, hbox, hversion, hsystem, hcount⟩ := parsePssh_status.mp h
  have hlt := @Endian.decode_lt true (Blocks.segment (initData.memory after) 28 4)
  have hencoded := @Endian.encode_decode true 4 (Blocks.segment (initData.memory after) 28 4)
    (Blocks.length_segment _ _ _)
  rw [Blocks.length_segment] at hlt
  generalize Endian.decode true (Blocks.segment (initData.memory after) 28 4) = n at hkeyIds hcount hlt hencoded
  have hkids : (parsePssh initData after).keyIds.map
      (Blocks.segment (initData.memory after) · kKeyIdSize) =
        Blocks.front 16 n (Blocks.segment (initData.memory after) 32 (n * 16)) := by
    rw [hkeyIds, List.map_map, Blocks.front_segment]
    rfl
  have hlength : (Blocks.front 16 n (Blocks.segment (initData.memory after) 32 (n * 16))).length = n := by
    rw [← hkids, hkeyIds, List.length_map, List.length_map, List.length_range]
  have hflat : (Blocks.front 16 n (Blocks.segment (initData.memory after) 32 (n * 16))).flatten =
      (initData.bytes.drop 32).take (n * 16) := by
    rw [Blocks.flatten_front, List.take_of_length_le (Blocks.length_segment _ _ _).le,
      segment_memory (by omega)]
  -- the fields are the segments up to the key ids
  have hheader : Blocks.segment (initData.memory after) 0 32 = Endian.encode true 4 initData.size ++
      psshIdentifier ++ psshVersion1 ++ Blocks.segment (initData.memory after) 12 16 ++
        Endian.encode true 4 n := by
    rw [hencoded, ← hversion, ← hbox, ← encode_mod, ← hsize]
    rw [← Blocks.segment_add _ 0 4 4, ← Blocks.segment_add _ 0 8 4, ← Blocks.segment_add _ 0 12 16,
      ← Blocks.segment_add _ 0 28 4]
  rw [hkids]
  refine ⟨by rw [hlength]; exact hlt, ?_, _, hsystem, initData.bytes.drop (32 + n * 16), ?_, ?_⟩
  · intro kid hkid
    exact Blocks.length_of_mem_front (Blocks.length_segment _ _ _).ge hkid
  · have hbytes : initData.bytes.length = initData.size := rfl
    rw [List.length_drop]
    omega
  · rw [hlength, ← hheader, hflat, segment_memory (by omega), List.drop_zero, List.append_assoc,
      ← List.drop_drop, List.take_append_drop, List.take_append_drop]

theorem PsshBox.accepted {kids : List (List Byte)}
    (h : PsshBox initData.size initData.bytes kids) (after : Nat → Byte) :
    (parsePssh initData after).status = .ok := by
  obtain ⟨hcount, hkids, systemId, hsystem, dataSize, hdata, hlayout⟩ := h
  have hsystemId := length_systemId hsystem
  have hflat : kids.flatten.length = kids.length * 16 := by
    rw [List.length_flatten, List.map_congr_left hkids, List.map_const', List.sum_replicate_nat]
    rfl
  have hsize : initData.size = 36 + kids.length * 16 := by
    rw [ByteVector.size, hlayout]
    simp only [List.length_append, Endian.length_encode, hsystemId, hflat, hdata]
    show 4 + 4 + 4 + 16 + 4 + kids.length * 16 + 4 = _
    omega
  have hfield : ∀ {p n : Nat} {field : List Byte}, Window initData.bytes p field →
      field.length = n → p + n ≤ initData.size →
      Blocks.segment (initData.memory after) p n = field := by
    intro p n field hfield hn hle
    rw [segment_memory hle, ← hn, ← hfield.eq_take]
  -- the fields from the last one to the first one
  have hall : Window initData.bytes 0 initData.bytes := List.prefix_refl _
  nth_rewrite 2 [hlayout] at hall
  have hfields := hall.left.left
  have hcounted := hfields.right
  have hid := hfields.left.right
  have hversion := hfields.left.left.right
  have hbox := hfields.left.left.left.right
  have hlength := hfields.left.left.left.left
  have hname : psshIdentifier.length = 4 := rfl
  have hfour : psshVersion1.length = 4 := rfl
  simp only [List.length_append, Endian.length_encode, hsystemId, hname, hfour]
    at hcounted hid hversion hbox
  have hbox' : Blocks.segment (initData.memory after) 4 4 = psshIdentifier := hfield hbox rfl (by omega)
  have hversion' : Blocks.segment (initData.memory after) 8 4 = psshVersion1 :=
    hfield hversion rfl (by omega)
  have hid' : Blocks.segment (initData.memory after) 12 16 = systemId :=
    hfield hid hsystemId (by omega)
  have hcounted' : Blocks.segment (initData.memory after) 28 4 = Endian.encode true 4 kids.length :=
    hfield hcounted (Endian.length_encode true 4 _) (by omega)
  rw [parsePssh_status, hfield hlength (Endian.length_encode true 4 _) (by omega), encode_mod, hbox',
    hversion', hid', hcounted', Endian.decode_encode hcount]
  exact ⟨rfl, rfl, rfl, hsystem, hsize⟩

theorem parsePssh_ok : (parsePssh initData after).status = .ok ↔
    ∃ kids, PsshBox initData.size initData.bytes kids :=
  ⟨fun h => ⟨_, box_of_parsePssh h⟩, fun h => h.elim fun _ hbox => hbox.accepted after⟩

/-! ### What is read -/

/-- Where what is in front of a field is as it should be, the field is in the init data. -/
def FieldsFit (initData : ByteVector) : Prop :=
  4 ≤ initData.size ∧ (initData.bytes.take 4 = Endian.encode true 4 initData.size →
  8 ≤ initData.size ∧ ((initData.bytes.drop 4).take 4 = psshIdentifier →
  12 ≤ initData.size ∧ ((initData.bytes.drop 8).take 4 = psshVersion1 →
  28 ≤ initData.size ∧ (isClearKeyUUID ((initData.bytes.drop 12).take 16) = true →
  32 ≤ initData.size))))

theorem parseKeyIds_reads (memory : Nat → Byte) (readPosition : Nat) :
    (parseKeyIds initData memory readPosition).reads = List.range' readPosition 4 := by
  rw [parseKeyIds]
  split
  · rfl
  · rfl

theorem parsePssh_reads :
    (∀ i ∈ (parsePssh initData after).reads, i < initData.size) ↔ FieldsFit initData := by
  have hcount : (∀ i ∈ (parseKeyIds initData (initData.memory after) 28).reads, i < initData.size) ↔
      32 ≤ initData.size := by
    rw [parseKeyIds_reads]
    simp only [List.mem_range'_1]
    exact ⟨fun h => h 31 (by decide), fun h i hi => by omega⟩
  rw [parsePssh, validate_reads (by decide), FieldsFit]
  refine and_congr_right fun hsize => ?_
  rw [segment_memory (by omega), encode_mod, beq_iff_eq, List.drop_zero]
  refine imp_congr_right fun _ => ?_
  rw [validate_reads (by decide)]
  refine and_congr_right fun hbox => ?_
  rw [segment_memory hbox, beq_iff_eq]
  refine imp_congr_right fun _ => ?_
  rw [validate_reads (by decide)]
  refine and_congr_right fun hversion => ?_
  rw [segment_memory hversion, beq_iff_eq]
  refine imp_congr_right fun _ => ?_
  rw [validate_reads (by decide)]
  refine and_congr_right fun hsystem => ?_
  rw [segment_memory hsystem]
  exact imp_congr_right fun _ => hcount

/-! ### The request -/

open Foundation.Base64 (unpadded urlChar)

/-- A JSON string of characters that stand for themselves. -/
def quoted (s : List Char) : List Char := '"' :: s ++ ['"']

/-- The JSON text that lists strings. -/
def requestText (keyType : KeyType) (strs : List (List Char)) : List Char :=
  kRequestPrefix ++ List.intercalate [','] (strs.map quoted) ++ session keyType

section

variable {memory : Nat → Byte} {request : List Char} {keyIds : List Nat} {strs : List (List Char)}

/-- Padding is erased in the strings alone. -/
theorem filter_intercalate :
    (List.intercalate [','] (strs.map quoted)).filter (· ≠ '=') =
      List.intercalate [','] ((strs.map (List.filter (· ≠ '='))).map quoted) := by
  have hquoted : ∀ s, (quoted s).filter (· ≠ '=') = quoted (s.filter (· ≠ '=')) := by
    intro s
    rw [quoted, List.filter_append]
    rfl
  induction strs with
  | nil => rfl
  | cons s strs ih =>
    cases strs with
    | nil =>
      simp only [List.map_cons, List.map_nil, List.intercalate_singleton]
      exact hquoted s
    | cons s' strs =>
      simp only [List.map_cons] at ih ⊢
      rw [List.intercalate_cons_cons, List.intercalate_cons_cons, List.filter_append,
        List.filter_append, hquoted, ih]
      rfl

theorem appendKeyIds_succ (i : Nat) : appendKeyIds memory keyIds (i + 1) request =
    request ++ (keyIds.map fun keyId => encodeBase64Url (Blocks.segment memory keyId kKeyIdSize)).flatMap
      fun s => ',' :: quoted s := by
  induction keyIds generalizing i request with
  | nil => rw [appendKeyIds, List.map_nil, List.flatMap_nil, List.append_nil]
  | cons keyId keyIds ih =>
    rw [appendKeyIds, if_pos (Nat.succ_ne_zero i), ih, List.map_cons, List.flatMap_cons, quoted]
    simp only [List.append_assoc, List.cons_append, List.nil_append]

theorem intercalate_quoted (s : List Char) (strs : List (List Char)) :
    List.intercalate [','] ((s :: strs).map quoted) =
      quoted s ++ strs.flatMap fun s => ',' :: quoted s := by
  induction strs generalizing s with
  | nil => simp
  | cons s' strs ih =>
    have hrest := ih s'
    rw [List.map_cons] at hrest
    rw [List.map_cons, List.map_cons, List.intercalate_cons_cons, hrest, List.flatMap_cons]
    simp only [List.append_assoc, List.cons_append, List.nil_append]

theorem appendKeyIds_zero : appendKeyIds memory keyIds 0 request = request ++
    List.intercalate [','] ((keyIds.map fun keyId =>
      encodeBase64Url (Blocks.segment memory keyId kKeyIdSize)).map quoted) := by
  cases keyIds with
  | nil => exact (List.append_nil _).symm
  | cons keyId keyIds =>
    rw [appendKeyIds, if_neg (not_not.mpr rfl), appendKeyIds_succ, List.map_cons,
      intercalate_quoted, quoted]
    simp only [List.append_assoc, List.cons_append, List.nil_append]

/-- A key id loses its padding. -/
theorem filter_encodeBase64Url (x : List Byte) :
    (encodeBase64Url x).filter (· ≠ '=') = unpadded urlChar x := by
  have hbody : ∀ c ∈ unpadded urlChar x, decide (c ≠ '=') = true := by
    rintro c hc
    refine decide_eq_true fun heq => ?_
    exact Foundation.Base64.alphabetValue_of_mem x Foundation.Base64.alphabetValue_urlChar hc
      (heq ▸ rfl)
  rw [encodeBase64Url, Foundation.Base64.encodeBase64Url_eq,
    Foundation.Base64.encodeBase64_unpadded x rfl, List.filter_append, List.filter_eq_self.mpr hbody]
  simp

theorem generateRequest_eq (keyType : KeyType) : generateRequest memory keyType keyIds =
    requestText keyType (keyIds.map fun keyId =>
      unpadded urlChar (Blocks.segment memory keyId kKeyIdSize)) := by
  have hprefix : kRequestPrefix.filter (· ≠ '=') = kRequestPrefix := by decide
  have hsession : (session keyType).filter (· ≠ '=') = session keyType := by
    cases keyType <;> decide
  have hkids : (keyIds.map fun keyId => encodeBase64Url (Blocks.segment memory keyId kKeyIdSize)).map
      (List.filter (· ≠ '=')) =
        keyIds.map fun keyId => unpadded urlChar (Blocks.segment memory keyId kKeyIdSize) := by
    rw [List.map_map]
    exact List.map_congr_left fun keyId _ => filter_encodeBase64Url _
  rw [generateRequest, appendKeyIds_zero, List.filter_append, List.filter_append, hprefix, hsession,
    filter_intercalate, hkids, requestText]

end

/-! ### The reader of the request -/

/-- `decodeBase64` is the decoder of the framework with a buffer of the right size. -/
theorem decodeBase64_eq (memory : (n : Nat) → Vector Byte n) (s : List Char) :
    decodeBase64 memory s =
      let outLen := Foundation.Base64.outLen s
      let res := Foundation.Base64.decodeBase64 (some (memory outLen).toList) outLen s
      if res.success then res.out else none := by
  rw [decodeBase64]
  dsimp only
  rw [Foundation.Base64.decodeBase64]
  by_cases hlength : s.length % 4 ≠ 0
  · rw [if_pos hlength, if_pos hlength]
    rfl
  · rw [if_neg hlength, if_neg hlength]
    simp only [Nat.lt_irrefl, if_false]
    cases Foundation.Base64.decodeFrom s.length (Foundation.Base64.countPadding s)
      (Foundation.Base64.outLen s) s 0 0 ⟨(memory (Foundation.Base64.outLen s)).toList, 0⟩ with
    | error out => rfl
    | ok o => rfl

theorem decodeBase64_encodeBase64Url (memory : (n : Nat) → Vector Byte n) (x : List Byte) :
    decodeBase64 memory (encodeBase64Url x) = some x := by
  have halphabet := Foundation.Base64.alphabetValue_urlChar
  have hout : Foundation.Base64.outLen (encodeBase64Url x) = x.length := by
    rw [encodeBase64Url, Foundation.Base64.encodeBase64Url_eq,
      Foundation.Base64.encodeBase64_unpadded x rfl, Foundation.Base64.outLen_unpadded x halphabet]
  have hdecoded := (@Foundation.Base64.decodeBase64_encoded x _ halphabet rfl
    (memory x.length).toList x.length Vector.length_toList.ge).1 (Nat.le_refl _)
  rw [← Foundation.Base64.encodeBase64Url_eq, ← encodeBase64Url] at hdecoded
  rw [decodeBase64_eq, hout]
  dsimp only
  rw [hdecoded, if_pos rfl, List.drop_of_length_le Vector.length_toList.le, List.append_nil]

/-- The padding that has been erased is restored. -/
theorem decodeBase64String_unpadded (memory : (n : Nat) → Vector Byte n) (x : List Byte) :
    decodeBase64String memory (unpadded urlChar x) = some x := by
  have halphabet := Foundation.Base64.alphabetValue_urlChar
  have hnone : '=' ∉ unpadded urlChar x := fun hmem =>
    Foundation.Base64.alphabetValue_of_mem x halphabet hmem rfl
  have htotal := @Foundation.Base64.length_unpadded x urlChar
  have hmissing : Sextets.missing x.length = (3 - x.length % 3) % 3 := rfl
  have hpadded : (if (unpadded urlChar x).length % 4 > 0 then
      unpadded urlChar x ++ List.replicate (4 - (unpadded urlChar x).length % 4) '='
      else unpadded urlChar x) = encodeBase64Url x := by
    rw [encodeBase64Url, Foundation.Base64.encodeBase64Url_eq,
      Foundation.Base64.encodeBase64_unpadded x rfl]
    split
    next hsome =>
      rw [show 4 - (unpadded urlChar x).length % 4 = Sextets.missing x.length by omega]
    next hwhole =>
      rw [show Sextets.missing x.length = 0 by omega, List.replicate_zero, List.append_nil]
  rw [decodeBase64String, if_neg hnone]
  dsimp only
  rw [hpadded, decodeBase64_encodeBase64Url]

/-! ### Init data that are handled -/

/-- The key ids that init data of a type hold. -/
def KeyIds (mimeType : List Char) (initData : ByteVector) (kids : List (List Byte)) : Prop :=
  mimeType ∈ isoBmffTypes ∧ PsshBox initData.size initData.bytes kids ∨
    mimeType ∉ isoBmffTypes ∧ mimeType ∈ webmTypes ∧ kids = [initData.bytes]

/-- A request of a session that lists strings, which are decoded to the key ids. -/
def Requests (keyType : KeyType) (kids : List (List Byte)) (request : List Char) : Prop :=
  ∃ strs, request = requestText keyType strs ∧ (∀ s ∈ strs, '"' ∉ s ∧ '\\' ∉ s) ∧
    ∀ memory, strs.map (decodeBase64String memory) = kids.map some

theorem requests_unpadded (keyType : KeyType) (kids : List (List Byte)) :
    Requests keyType kids (requestText keyType (kids.map (unpadded urlChar))) := by
  refine ⟨_, rfl, ?_, ?_⟩
  · rintro s hs
    obtain ⟨kid, -, rfl⟩ := List.mem_map.mp hs
    have hplain := @Foundation.Base64.alphabetValue_of_mem kid urlChar
      Foundation.Base64.alphabetValue_urlChar
    exact ⟨fun hmem => hplain hmem rfl, fun hmem => hplain hmem rfl⟩
  · intro memory
    rw [List.map_map]
    exact List.map_congr_left fun kid _ => decodeBase64String_unpadded memory kid

/-- The request that is made lists the key ids of the init data. -/
theorem parse_requests {mimeType : List Char} {keyType : KeyType} {licenseRequest : List Char}
    (h : (parse initData after mimeType keyType licenseRequest).1 = .ok) :
    ∃ kids, KeyIds mimeType initData kids ∧
      Requests keyType kids (parse initData after mimeType keyType licenseRequest).2 := by
  rw [parse] at h ⊢
  dsimp only at h ⊢
  split at h
  next hiso =>
    split at h
    next hfailed => exact absurd h hfailed
    next hok =>
      have hok := not_not.mp hok
      refine ⟨_, .inl ⟨hiso, box_of_parsePssh hok⟩, ?_⟩
      have hrequest := requests_unpadded keyType
        ((parsePssh initData after).keyIds.map (Blocks.segment (initData.memory after) · kKeyIdSize))
      rw [List.map_map] at hrequest
      rw [if_pos hiso, if_neg (not_not.mpr hok), generateRequest_eq]
      exact hrequest
  next hiso =>
  split at h
  next hwebm =>
    split at h
    · cases h
    next hsize =>
      have hsize := not_not.mp hsize
      have hwhole : Blocks.segment (initData.memory after) 0 kKeyIdSize = initData.bytes := by
        rw [segment_memory (by omega), List.drop_zero, List.take_of_length_le hsize.le]
      refine ⟨[initData.bytes], .inr ⟨hiso, hwebm, rfl⟩, ?_⟩
      rw [if_neg hiso, if_pos hwebm, if_neg (not_not.mpr hsize), generateRequest_eq, List.map_cons,
        hwhole]
      exact requests_unpadded keyType [initData.bytes]
  · cases h

/-- Nothing behind the init data is read, they are accepted if they are a `pssh` box of their own
length, and a request lists their key ids. -/
structure Handled (initData : ByteVector) (after : Nat → Byte) : Prop where
  reads : ∀ i ∈ (parsePssh initData after).reads, i < initData.size
  accepts : (parsePssh initData after).status = .ok ↔
    initData.size < 2 ^ 32 ∧ ∃ kids, PsshBox initData.size initData.bytes kids
  request : ∀ mimeType keyType licenseRequest,
    (parse initData after mimeType keyType licenseRequest).1 = .ok →
    ∃ kids, KeyIds mimeType initData kids ∧
      Requests keyType kids (parse initData after mimeType keyType licenseRequest).2

/-- Init data are handled unless they end in front of a field that is compared, or are so long that
the size field cannot hold their length and are a box otherwise. -/
theorem handled_iff (initData : ByteVector) (after : Nat → Byte) : Handled initData after ↔
    FieldsFit initData ∧
      (2 ^ 32 ≤ initData.size → ∀ kids, ¬ PsshBox initData.size initData.bytes kids) := by
  constructor
  · intro h
    refine ⟨parsePssh_reads.mp h.reads, fun hlarge kids hbox => ?_⟩
    have hsmall := (h.accepts.mp (hbox.accepted after)).1
    omega
  · rintro ⟨hfields, hlarge⟩
    refine ⟨parsePssh_reads.mpr hfields, ?_, fun _ _ _ => parse_requests⟩
    rw [parsePssh_ok]
    refine ⟨fun h => ⟨?_, h⟩, fun h => h.2⟩
    obtain ⟨kids, hbox⟩ := h
    exact Nat.lt_of_not_le fun hle => hlarge hle kids hbox

/-- Init data that are their own size field. -/
theorem not_handled_sizeField :
    ¬ ∀ (initData : ByteVector) (after : Nat → Byte), Handled initData after := by
  intro h
  have hreads := (h ⟨[0, 0, 0, 4], by decide⟩ fun _ => 0).reads 4 (by decide)
  exact absurd hreads (by decide)

end MediaFramework.ClearKey
