import MediaFramework.Mtp.MtpProperty
import MediaFramework.Mtp.Strings
import Mathlib.Data.List.Forall2

/-!
# Values are read as they were written

The bytes of a value and of an array, which the calls of `write` put and those of `read` get.
-/

namespace MediaFramework.Mtp

open LittleEndian Consume

variable {buffer : List Byte}

/-- How many bits of the union a case uses. -/
def ValueCase.width : ValueCase → Nat
  | .i8 | .u8 => 8
  | .i16 | .u16 => 16
  | .i32 | .u32 => 32
  | .i64 | .u64 => 64
  | .i128 | .u128 => 128
  | .str => 0

/-- The values are the same where the type looks, and no string is an empty one. -/
def SameValue (mType : MtpDataType) (v v' : MtpPropertyValue) : Prop :=
  match valueCase mType with
  | none => True
  | some .str => v'.str.getD [] = v.str.getD []
  | some c => v'.u.setWidth c.width = v.u.setWidth c.width

def ValueFits (v : MtpPropertyValue) : Prop := StringFits (v.str.getD [])

instance (v : MtpPropertyValue) : Decidable (ValueFits v) := inferInstanceAs (Decidable (StringFits _))

def valueBytes (mType : MtpDataType) (v : MtpPropertyValue) : List Byte :=
  match valueCase mType with
  | none => []
  | some .str => stringBytes (v.str.getD [])
  | some .i128 | some .u128 =>
    digits 4 (v.u.extractLsb' 0 32).toNat ++ (digits 4 (v.u.extractLsb' 32 32).toNat ++
      (digits 4 (v.u.extractLsb' 64 32).toNat ++ digits 4 (v.u.extractLsb' 96 32).toNat))
  | some c => digits (c.width / 8) (v.u.setWidth c.width).toNat

theorem setWidth_store {w : Nat} (hw : w ≤ 128) (value : MtpPropertyValue) (member : BitVec w) :
    (value.store member).u.setWidth w = member := by
  ext i hi
  simp [MtpPropertyValue.store, hi]
  omega

theorem append_extracts (u : BitVec 128) :
    u.extractLsb' 96 32 ++ u.extractLsb' 64 32 ++ u.extractLsb' 32 32 ++ u.extractLsb' 0 32 = u := by
  apply BitVec.eq_of_getLsbD_eq
  intro i hi
  simp only [BitVec.getLsbD_append, BitVec.getLsbD_extractLsb']
  have hlt : i - 32 - 32 - 32 < 32 := by omega
  have hsum : ¬i < 32 → 32 + (i - 32) = i := by omega
  grind

theorem writes_putUInt128 (u : BitVec 128) :
    Writes (putUInt128 u) (digits 4 (u.extractLsb' 0 32).toNat ++
      (digits 4 (u.extractLsb' 32 32).toNat ++ (digits 4 (u.extractLsb' 64 32).toNat ++
        digits 4 (u.extractLsb' 96 32).toNat))) :=
  (writes_putUInt 4 _).bind ((writes_putUInt 4 _).bind ((writes_putUInt 4 _).bind
    (writes_putUInt 4 _)))

theorem reads_getUInt128 (u : BitVec 128) :
    Reads (Left buffer) getUInt128 (digits 4 (u.extractLsb' 0 32).toNat ++
      (digits 4 (u.extractLsb' 32 32).toNat ++ (digits 4 (u.extractLsb' 64 32).toNat ++
        digits 4 (u.extractLsb' 96 32).toNat))) (· = u) := by
  apply (reads_getUInt 4 (u.extractLsb' 0 32)).bind
  rintro value₀ rfl
  apply (reads_getUInt 4 (u.extractLsb' 32 32)).bind
  rintro value₁ rfl
  apply (reads_getUInt 4 (u.extractLsb' 64 32)).bind
  rintro value₂ rfl
  apply (reads_getUInt 4 (u.extractLsb' 96 32)).map
  rintro value₃ rfl
  exact append_extracts u

/-- The string of a null pointer is put as the empty one. -/
theorem writes_str {v : MtpPropertyValue} (h : ValueFits v) :
    Writes (match v.str with
      | some s => putString s
      | none => putEmptyString) (stringBytes (v.str.getD [])) := by
  rw [ValueFits] at h
  cases hstr : v.str with
  | none => exact writes_putUInt 1 0
  | some s =>
    rw [hstr] at h
    exact writes_putString h

theorem writes_value (mType : MtpDataType) {v : MtpPropertyValue} (h : ValueFits v) :
    Writes (writeValue mType v) (valueBytes mType v) := by
  rw [writeValue, valueBytes]
  cases valueCase mType with
  | none => exact Writes.nil
  | some c =>
    cases c with
    | i8 | u8 => exact writes_putUInt 1 _
    | i16 | u16 => exact writes_putUInt 2 _
    | i32 | u32 => exact writes_putUInt 4 _
    | i64 | u64 => exact writes_putUInt 8 _
    | i128 | u128 => exact writes_putUInt128 v.u
    | str => exact writes_str h

theorem reads_store {n : Nat} (hn : 8 * n ≤ 128) (old : MtpPropertyValue) (member : BitVec (8 * n)) :
    Reads (Left buffer) (getUInt n >>= fun member => pure (old.store member))
      (digits n member.toNat) (fun v => v.u.setWidth (8 * n) = member) := by
  apply (reads_getUInt n member).map
  rintro member rfl
  exact setWidth_store hn old member

theorem reads_value {mType : MtpDataType} (hcase : valueCase mType ≠ none) (old : MtpPropertyValue)
    {v : MtpPropertyValue} (h : ValueFits v) :
    Reads (Left buffer) (readValue mType old) (valueBytes mType v) (SameValue mType v) := by
  rw [readValue, valueBytes]
  unfold SameValue
  cases hc : valueCase mType with
  | none => exact absurd hc hcase
  | some c =>
    cases c with
    | i8 | u8 => exact reads_store (n := 1) (by decide) old _
    | i16 | u16 => exact reads_store (n := 2) (by decide) old _
    | i32 | u32 => exact reads_store (n := 4) (by decide) old _
    | i64 | u64 => exact reads_store (n := 8) (by decide) old _
    | i128 | u128 =>
      apply (reads_getUInt128 v.u).map
      rintro u rfl
      exact (setWidth_store (Nat.le_refl 128) old v.u).trans (BitVec.setWidth_eq _).symm
    | str =>
      apply (reads_getString h).map
      rintro s rfl
      rfl

/-! ### Arrays -/

def valuesBytes (mType : MtpDataType) (values : List MtpPropertyValue) : List Byte :=
  values.flatMap (valueBytes mType)

def arrayBytes (mType : MtpDataType) (values : List MtpPropertyValue) : List Byte :=
  digits 4 (BitVec.ofNat 32 values.length).toNat ++ valuesBytes mType values

def SameValues (mType : MtpDataType) : List MtpPropertyValue → List MtpPropertyValue → Prop :=
  List.Forall₂ (SameValue mType)

/-- An array that `readArrayValues` takes. -/
def ArrayFits (values : List MtpPropertyValue) : Prop :=
  0 < values.length ∧ values.length < INT32_MAX / sizeofMtpPropertyValue ∧ ∀ v ∈ values, ValueFits v

instance (values : List MtpPropertyValue) : Decidable (ArrayFits values) :=
  inferInstanceAs (Decidable (_ ∧ _ ∧ _))

theorem writes_values (mType : MtpDataType) {values : List MtpPropertyValue}
    (h : ∀ v ∈ values, ValueFits v) :
    Writes (writeValues mType values) (valuesBytes mType values) := by
  induction values with
  | nil => exact Writes.nil
  | cons v values ih =>
    obtain ⟨hv, hvalues⟩ := List.forall_mem_cons.mp h
    rw [valuesBytes, List.flatMap_cons]
    exact (writes_value mType hv).bind (ih hvalues)

theorem reads_values {mType : MtpDataType} (hcase : valueCase mType ≠ none) (junk : MtpPropertyValue)
    {values : List MtpPropertyValue} (h : ∀ v ∈ values, ValueFits v) :
    Reads (Left buffer) (readValues junk mType values.length) (valuesBytes mType values)
      (SameValues mType values) := by
  induction values with
  | nil => exact Reads.pure List.Forall₂.nil
  | cons v values ih =>
    obtain ⟨hv, hvalues⟩ := List.forall_mem_cons.mp h
    rw [valuesBytes, List.flatMap_cons]
    apply (reads_value hcase junk hv).bind
    intro v' hv'
    apply (ih hvalues).map
    intro values' hvalues'
    exact List.Forall₂.cons hv' hvalues'

theorem writes_array (mType : MtpDataType) {values : List MtpPropertyValue} (h : ArrayFits values) :
    Writes (writeArrayValues mType values) (arrayBytes mType values) := by
  obtain ⟨-, -, hvalues⟩ := h
  exact (writes_putUInt 4 _).bind (writes_values mType hvalues)

theorem reads_array {mType : MtpDataType} (hcase : valueCase mType ≠ none) (junk : MtpPropertyValue)
    {values : List MtpPropertyValue} (h : ArrayFits values) :
    Reads (Left buffer) (readArrayValues junk mType) (arrayBytes mType values)
      (SameValues mType values) := by
  obtain ⟨hsome, hfew, hvalues⟩ := h
  have hmax : INT32_MAX / sizeofMtpPropertyValue < 2 ^ 32 := by decide
  have hlength : (BitVec.ofNat 32 values.length).toNat = values.length := by
    rw [BitVec.toNat_ofNat, Nat.mod_eq_of_lt (by omega)]
  apply (reads_getUInt 4 (BitVec.ofNat 32 values.length)).bind
  rintro length rfl
  have hguard : ¬(BitVec.ofNat 32 values.length = 0 ∨
      (BitVec.ofNat 32 values.length).toNat ≥ INT32_MAX / sizeofMtpPropertyValue) := by
    rw [BitVec.toNat_eq, hlength]
    show ¬(values.length = 0 ∨ _)
    omega
  rw [if_neg hguard, hlength]
  exact reads_values hcase junk hvalues

/-- The reader takes no other length. -/
theorem readArrayValues_refuses (mType : MtpDataType) (junk : MtpPropertyValue)
    {packet : MtpDataPacket} {length : BitVec 32} {packet' : MtpDataPacket}
    (hget : getUInt32 packet = some (length, packet'))
    (hlength : length = 0 ∨ length.toNat ≥ INT32_MAX / sizeofMtpPropertyValue) :
    readArrayValues junk mType packet = none := by
  show (getUInt32 packet).bind _ = none
  rw [hget]
  show (if _ then failure else _ : Packet _) packet' = none
  rw [if_pos hlength]
  rfl

end MediaFramework.Mtp
