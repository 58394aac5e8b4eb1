import Mathlib.Algebra.Order.Ring.Nat
import Mathlib.Data.List.Forall2
import Mathlib.Data.List.Induction

/-!
# Trees of elements with coded ids and sizes

A coded number of `k` bytes has `7 * k` bits below a bit that tells its length. An element is an id,
the size of its payload and the payload, and the payload of some elements is a sequence of elements.
-/

namespace Ebml

abbrev Byte := BitVec 8

/-- The low `k` bytes of a number, the highest first. -/
def bigEndian : Nat → Nat → List Byte
  | 0, _ => []
  | k + 1, n => BitVec.ofNat 8 (n / 256 ^ k) :: bigEndian k n

def number (bytes : List Byte) : Nat := bytes.foldl (fun n b => 256 * n + b.toNat) 0

@[simp]
theorem length_bigEndian (k n : Nat) : (bigEndian k n).length = k := by
  induction k with
  | zero => rfl
  | succ k ih => rw [bigEndian, List.length_cons, ih]

theorem bigEndian_concat (k n : Nat) :
    bigEndian (k + 1) n = bigEndian k (n / 256) ++ [BitVec.ofNat 8 n] := by
  induction k with
  | zero => rw [bigEndian, bigEndian, bigEndian, pow_zero, Nat.div_one, List.nil_append]
  | succ k ih =>
    have hhead : n / 256 ^ (k + 1) = n / 256 / 256 ^ k := by
      rw [Nat.div_div_eq_div_mul, pow_succ, Nat.mul_comm]
    rw [bigEndian, ih, bigEndian, hhead, List.cons_append]

theorem number_concat (bytes : List Byte) (b : Byte) :
    number (bytes ++ [b]) = 256 * number bytes + b.toNat := by
  rw [number, List.foldl_append]
  rfl

theorem number_lt (bytes : List Byte) : number bytes < 256 ^ bytes.length := by
  induction bytes using List.reverseRecOn with
  | nil => exact Nat.one_pos
  | append_singleton bytes b ih =>
    have hb := b.isLt
    rw [number_concat, List.length_append, List.length_singleton, Nat.pow_succ]
    omega

theorem number_bigEndian (k n : Nat) : number (bigEndian k n) = n % 256 ^ k := by
  induction k generalizing n with
  | zero => rw [pow_zero, Nat.mod_one]; rfl
  | succ k ih =>
    have hpow : (256 : Nat) ^ (k + 1) = 256 * 256 ^ k := by rw [pow_succ, Nat.mul_comm]
    rw [bigEndian_concat, number_concat, ih, BitVec.toNat_ofNat, hpow, Nat.mod_mul, Nat.add_comm]

/-- What a coded number of `k` bytes is read as. -/
def coded (k value : Nat) : Nat := 2 ^ (7 * k) + value

/-- The length of the coded number that starts with a byte. -/
def width (b : Byte) : Nat := 8 - Nat.log2 b.toNat

/-- A coded number, its length and what is behind it. -/
def readCoded : List Byte → Option (Nat × Nat × List Byte)
  | [] => none
  | b :: bytes =>
    if b = 0 ∨ bytes.length < width b - 1 then none
    else some (number (b :: bytes.take (width b - 1)), width b, bytes.drop (width b - 1))

theorem log2_eq {n k : Nat} (hle : 2 ^ k ≤ n) (hlt : n < 2 ^ (k + 1)) : Nat.log2 n = k := by
  have hpos := Nat.two_pow_pos k
  have hlow : k ≤ Nat.log2 n := (Nat.le_log2 (by omega)).mpr hle
  have hhigh : Nat.log2 n < k + 1 := (Nat.log2_lt (by omega)).mpr hlt
  omega

theorem readCoded_coded {k value : Nat} (hk : 1 ≤ k ∧ k ≤ 8) (hvalue : value < 2 ^ (7 * k))
    (rest : List Byte) :
    readCoded (bigEndian k (coded k value) ++ rest) = some (coded k value, k, rest) := by
  obtain ⟨m, rfl⟩ : ∃ m, k = m + 1 := ⟨k - 1, by omega⟩
  have hbase : (256 : Nat) ^ m = 2 ^ (8 * m) := by rw [pow_mul]; rfl
  have hcoded : coded (m + 1) value < 2 ^ (7 * (m + 1) + 1) := by
    rw [coded, pow_succ]
    omega
  -- the highest byte has its first one where the length wants it
  have hlow : 2 ^ (7 - m) ≤ coded (m + 1) value / 256 ^ m := by
    have hpow : 2 ^ (7 - m) * 256 ^ m = 2 ^ (7 * (m + 1)) := by
      rw [hbase, ← pow_add]
      congr 1
      omega
    rw [Nat.le_div_iff_mul_le (Nat.pow_pos (by decide)), hpow, coded]
    omega
  have hhigh : coded (m + 1) value / 256 ^ m < 2 ^ (7 - m + 1) := by
    have hpow : 2 ^ (7 - m + 1) * 256 ^ m = 2 ^ (7 * (m + 1) + 1) := by
      rw [hbase, ← pow_add]
      congr 1
      omega
    rw [Nat.div_lt_iff_lt_mul (Nat.pow_pos (by decide)), hpow]
    exact hcoded
  have hbyte : (BitVec.ofNat 8 (coded (m + 1) value / 256 ^ m)).toNat =
      coded (m + 1) value / 256 ^ m := by
    have hle : 2 ^ (7 - m + 1) ≤ 2 ^ 8 := Nat.pow_le_pow_right (by decide) (by omega)
    rw [BitVec.toNat_ofNat, Nat.mod_eq_of_lt (by omega)]
  have hwidth : width (BitVec.ofNat 8 (coded (m + 1) value / 256 ^ m)) = m + 1 := by
    rw [width, hbyte, log2_eq hlow hhigh]
    omega
  have hne : BitVec.ofNat 8 (coded (m + 1) value / 256 ^ m) ≠ 0 := by
    intro hzero
    rw [hzero] at hbyte
    have hpos := Nat.two_pow_pos (7 - m)
    have hz : (0 : Byte).toNat = 0 := rfl
    omega
  have htake : (bigEndian m (coded (m + 1) value) ++ rest).take m =
      bigEndian m (coded (m + 1) value) :=
    List.take_left' (length_bigEndian _ _)
  have hdrop : (bigEndian m (coded (m + 1) value) ++ rest).drop m = rest :=
    List.drop_left' (length_bigEndian _ _)
  have hnumber : number (bigEndian (m + 1) (coded (m + 1) value)) = coded (m + 1) value := by
    rw [number_bigEndian]
    apply Nat.mod_eq_of_lt
    apply hcoded.trans_le
    have hpow : (256 : Nat) ^ (m + 1) = 2 ^ (8 * (m + 1)) := by rw [pow_mul]; rfl
    rw [hpow]
    exact Nat.pow_le_pow_right (by decide) (by omega)
  rw [bigEndian, List.cons_append, readCoded, hwidth, Nat.add_sub_cancel, htake, hdrop, if_neg,
    ← bigEndian, hnumber]
  rintro (hzero | hshort)
  · exact hne hzero
  · rw [List.length_append, length_bigEndian] at hshort
    omega

/-! ### Elements -/

/-- An id with its payload, and what is behind it. The size with all bits set is that of no
payload. -/
def readElement (bytes : List Byte) : Option ((Nat × List Byte) × List Byte) :=
  match readCoded bytes with
  | none => none
  | some (id, _, bytes) =>
    match readCoded bytes with
    | none => none
    | some (size, k, bytes) =>
      let size := size - 2 ^ (7 * k)
      if size + 1 = 2 ^ (7 * k) ∨ bytes.length < size then none
      else some ((id, bytes.take size), bytes.drop size)

/-- The elements of a payload, of which there are at most `fuel`. -/
def readElements : Nat → List Byte → Option (List (Nat × List Byte))
  | _, [] => some []
  | 0, _ :: _ => none
  | fuel + 1, bytes =>
    match readElement bytes with
    | none => none
    | some (item, bytes) => (readElements fuel bytes).map (item :: ·)

/-- A coded id of `k` bytes. -/
def IsId (k id : Nat) : Prop := 1 ≤ k ∧ k ≤ 8 ∧ 2 ^ (7 * k) ≤ id ∧ id < 2 ^ (7 * k + 1)

instance (k id : Nat) : Decidable (IsId k id) := inferInstanceAs (Decidable (_ ∧ _))

/-- An element whose size is coded in `k` bytes. -/
def element (id k : Nat) (payload : List Byte) : List Byte :=
  bigEndian (Nat.log2 id / 7) id ++ (bigEndian k (coded k payload.length) ++ payload)

theorem IsId.log2 {k id : Nat} (h : IsId k id) : Nat.log2 id / 7 = k := by
  obtain ⟨-, -, hlow, hhigh⟩ := h
  rw [log2_eq hlow hhigh]
  omega

theorem IsId.coded {k id : Nat} (h : IsId k id) :
    ∃ value, id = coded k value ∧ value < 2 ^ (7 * k) := by
  obtain ⟨-, -, hlow, hhigh⟩ := h
  rw [pow_succ] at hhigh
  refine ⟨id - 2 ^ (7 * k), ?_, by omega⟩
  rw [Ebml.coded]
  omega

theorem length_element {j id : Nat} (hid : IsId j id) (k : Nat) (payload : List Byte) :
    (element id k payload).length = j + k + payload.length := by
  rw [element, List.length_append, List.length_append, length_bigEndian, length_bigEndian, hid.log2,
    Nat.add_assoc]

theorem readElement_element {j id k : Nat} {payload : List Byte} (hid : IsId j id)
    (hk : 1 ≤ k ∧ k ≤ 8) (hsize : payload.length + 1 < 2 ^ (7 * k)) (rest : List Byte) :
    readElement (element id k payload ++ rest) = some ((id, payload), rest) := by
  obtain ⟨value, hvalue, hlt⟩ := hid.coded
  have hcoded : coded k payload.length - 2 ^ (7 * k) = payload.length := by
    rw [coded]
    omega
  have hread := readCoded_coded ⟨hid.1, hid.2.1⟩ hlt
    (bigEndian k (coded k payload.length) ++ (payload ++ rest))
  rw [← hvalue] at hread
  rw [readElement, element, hid.log2, List.append_assoc, List.append_assoc, hread]
  dsimp only
  rw [readCoded_coded hk (by omega)]
  dsimp only
  rw [hcoded, if_neg, List.take_left, List.drop_left]
  rw [List.length_append]
  omega

/-- An element that has no others in it, with the length of its size and its payload, or one that
is made of others. -/
inductive Tree
  | leaf (id width : Nat) (payload : List Byte)
  | node (id width : Nat) (children : List Tree)

namespace Tree

def id : Tree → Nat
  | leaf id _ _ => id
  | node id _ _ => id

mutual

def bytes : Tree → List Byte
  | leaf id width payload => element id width payload
  | node id width children => element id width (bytesAll children)

def bytesAll : List Tree → List Byte
  | [] => []
  | t :: ts => bytes t ++ bytesAll ts

end

def payload : Tree → List Byte
  | leaf _ _ payload => payload
  | node _ _ children => bytesAll children

mutual

/-- Ids are coded, and sizes fit. -/
def Valid : Tree → Prop
  | leaf id width payload =>
    (∃ j, IsId j id) ∧ (1 ≤ width ∧ width ≤ 8) ∧ payload.length + 1 < 2 ^ (7 * width)
  | node id width children =>
    (∃ j, IsId j id) ∧ (1 ≤ width ∧ width ≤ 8) ∧
      (bytesAll children).length + 1 < 2 ^ (7 * width) ∧ ValidAll children

def ValidAll : List Tree → Prop
  | [] => True
  | t :: ts => Valid t ∧ ValidAll ts

end

mutual

/-- An id and a payload as they have been read are those of a tree, and so are the elements that
are read from the payload. -/
def Recovered : Tree → Nat × List Byte → Prop
  | leaf id _ payload, item => item = (id, payload)
  | node id _ children, item =>
    item.1 = id ∧ ∃ items, readElements item.2.length item.2 = some items ∧
      RecoveredAll children items

def RecoveredAll : List Tree → List (Nat × List Byte) → Prop
  | [], items => items = []
  | t :: ts, items => ∃ item rest, items = item :: rest ∧ Recovered t item ∧ RecoveredAll ts rest

end

theorem readElement_bytes {t : Tree} (h : t.Valid) (rest : List Byte) :
    readElement (t.bytes ++ rest) = some ((t.id, t.payload), rest) := by
  cases t with
  | leaf id width payload =>
    rw [Valid] at h
    obtain ⟨⟨j, hid⟩, hwidth, hsize⟩ := h
    rw [bytes]
    exact readElement_element hid hwidth hsize rest
  | node id width children =>
    rw [Valid] at h
    obtain ⟨⟨j, hid⟩, hwidth, hsize, -⟩ := h
    rw [bytes]
    exact readElement_element hid hwidth hsize rest

theorem length_bytes_pos {t : Tree} (h : t.Valid) : 0 < t.bytes.length := by
  cases t with
  | leaf id width payload =>
    rw [Valid] at h
    obtain ⟨⟨j, hid⟩, hwidth, -⟩ := h
    rw [bytes, length_element hid]
    omega
  | node id width children =>
    rw [Valid] at h
    obtain ⟨⟨j, hid⟩, hwidth, -⟩ := h
    rw [bytes, length_element hid]
    omega

/-- The elements of a sequence are read one after the other. -/
theorem readElements_bytesAll (ts : List Tree) (h : ValidAll ts) (fuel : Nat)
    (hfuel : (bytesAll ts).length ≤ fuel) :
    readElements fuel (bytesAll ts) = some (ts.map fun t => (t.id, t.payload)) := by
  induction ts generalizing fuel with
  | nil =>
    rw [bytesAll, List.map_nil]
    cases fuel <;> rfl
  | cons t ts ih =>
    rw [ValidAll] at h
    obtain ⟨ht, hts⟩ := h
    have hpos := length_bytes_pos ht
    rw [bytesAll, List.length_append] at hfuel
    obtain ⟨fuel, rfl⟩ : ∃ m, fuel = m + 1 := ⟨fuel - 1, by omega⟩
    have hne : t.bytes ++ bytesAll ts ≠ [] := by
      intro hnil
      rw [List.append_eq_nil_iff] at hnil
      rw [hnil.1, List.length_nil] at hpos
      omega
    rw [bytesAll, readElements, readElement_bytes ht]
    · dsimp only
      rw [ih hts fuel (by omega), Option.map_some, List.map_cons]
    · exact hne

mutual

theorem recovered (t : Tree) (h : t.Valid) : t.Recovered (t.id, t.payload) := by
  cases t with
  | leaf id width payload => rw [Recovered]; rfl
  | node id width children =>
    rw [Valid] at h
    obtain ⟨-, -, -, hall⟩ := h
    rw [Recovered]
    exact ⟨rfl, _, readElements_bytesAll children hall _ le_rfl, recoveredAll children hall⟩

theorem recoveredAll (ts : List Tree) (h : ValidAll ts) :
    RecoveredAll ts (ts.map fun t => (t.id, t.payload)) := by
  cases ts with
  | nil => rw [RecoveredAll]; rfl
  | cons t ts =>
    rw [ValidAll] at h
    obtain ⟨ht, hts⟩ := h
    rw [RecoveredAll]
    exact ⟨_, _, List.map_cons, recovered t ht, recoveredAll ts hts⟩

end

end Tree

end Ebml
