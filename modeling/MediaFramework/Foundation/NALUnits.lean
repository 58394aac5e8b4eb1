import MediaFramework.Lib.Search
import Mathlib.Data.List.GetD
import Mathlib.Data.List.Infix

/-!
# NAL units between start codes

`getNextNALUnit` and the loops over it (`media/libstagefright/foundation/avc_utils.cpp`), on data
in which every NAL unit follows a start code.
-/

namespace MediaFramework.Foundation

/-- The loops read inside the data only. -/
def byteAt (data : List (BitVec 8)) (offset : Nat) : BitVec 8 := data.getD offset 0

def isStartCode (data : List (BitVec 8)) (offset : Nat) : Bool :=
  byteAt data (offset + 2) = 1 ∧ byteAt data offset = 0 ∧ byteAt data (offset + 1) = 0

/-- Zeros at the end are taken off, but not the first byte. -/
def trimZeros (data : List (BitVec 8)) (startOffset : Nat) : Nat → Nat
  | 0 => 0
  | endOffset + 1 =>
    if startOffset < endOffset ∧ byteAt data endOffset = 0 then trimZeros data startOffset endOffset
    else endOffset + 1

/-- Returns the data that is left, and the NAL unit or `none` for `-EAGAIN`. -/
def getNextNALUnit (data : List (BitVec 8)) (startCodeFollows : Bool) :
    List (BitVec 8) × Option (List (BitVec 8)) :=
  let size := data.length
  if size < 3 then (data, none)
  else
    let offset := Search.upTo (isStartCode data) (size - 2) 0
    if size ≤ offset + 2 then (data.drop offset, none)
    else
      let startOffset := offset + 3
      -- both loops together: on to the next one after two zeros, or to the end
      let offset := Search.upTo (fun offset => isStartCode data (offset - 2)) size startOffset
      if offset = size ∧ startCodeFollows = false then (data, none)
      else
        let offset := if offset = size then size + 2 else offset
        let endOffset := trimZeros data startOffset (offset - 2)
        let nal := (data.drop startOffset).take (endOffset - startOffset)
        (if offset + 2 < size then data.drop (offset - 2) else [], some nal)

/-- What the calls return until one does not return `OK`. -/
def nalUnitsFrom : Nat → List (BitVec 8) → List (List (BitVec 8))
  | 0, _ => []
  | calls + 1, data =>
    match getNextNALUnit data true with
    | (data, some nal) => nal :: nalUnitsFrom calls data
    | (_, none) => []

/-- A call that returns `OK` takes a byte at least. -/
def nalUnits (data : List (BitVec 8)) : List (List (BitVec 8)) := nalUnitsFrom data.length data

/-- A loop over the NAL units that `visit` may end. -/
def visitNALUnits {β : Type*} (visit : List (BitVec 8) → Option β) (done : β) :
    Nat → List (BitVec 8) → β
  | 0, _ => done
  | calls + 1, data =>
    match getNextNALUnit data true with
    | (data, some nal) => (visit nal).getD (visitNALUnits visit done calls data)
    | (_, none) => done

def nalType (nal : List (BitVec 8)) : BitVec 8 := byteAt nal 0 &&& 0x1f

def findNAL (data : List (BitVec 8)) (type : BitVec 8) : Option (List (BitVec 8)) :=
  visitNALUnits (fun nal => if nal ≠ [] ∧ nalType nal = type then some (some nal) else none) none
    data.length data

def isIDR (data : List (BitVec 8)) : Bool :=
  visitNALUnits (fun nal => if nal = [] then none else if nalType nal = 5 then some true else none)
    false data.length data

def isAVCReferenceFrame (data : List (BitVec 8)) : Bool :=
  visitNALUnits (fun nal =>
    if nal = [] then some false
    else if nalType nal = 5 then some true
    else if nalType nal = 1 then some ((byteAt nal 0 >>> 5) &&& 3 ≠ 0)
    else none) true data.length data

/-! ### One call -/

theorem getNextNALUnit_length_lt {data rest nal : List (BitVec 8)} {startCodeFollows : Bool}
    (h : getNextNALUnit data startCodeFollows = (rest, some nal)) : rest.length < data.length := by
  simp only [getNextNALUnit] at h
  split at h
  · cases h
  next hsize =>
  split at h
  · cases h
  next hstart =>
  split at h
  · cases h
  · have hrest := congrArg Prod.fst h
    have hle := Search.le_upTo (p := fun offset => isStartCode data (offset - 2)) (n := data.length)
      (i := Search.upTo (isStartCode data) (data.length - 2) 0 + 3)
    have hdrop : ∀ j, 3 ≤ j →
        (if j + 2 < data.length then data.drop (j - 2) else []).length < data.length := by
      intro j hj
      split
      · rw [List.length_drop]
        omega
      · rw [List.length_nil]
        omega
    dsimp only at hrest
    rw [← hrest]
    exact hdrop _ (by split <;> omega)

theorem nalUnitsFrom_eq {data : List (BitVec 8)} {calls : Nat} (h : data.length ≤ calls) :
    nalUnitsFrom calls data = nalUnits data := by
  have hmore : ∀ calls calls' (data : List (BitVec 8)), data.length ≤ calls →
      data.length ≤ calls' → nalUnitsFrom calls data = nalUnitsFrom calls' data := by
    intro calls
    induction calls with
    | zero =>
      intro calls' data hle hle'
      obtain rfl : data = [] := List.length_eq_zero_iff.mp (Nat.le_zero.mp hle)
      cases calls' <;> rfl
    | succ calls ih =>
      intro calls' data hle hle'
      cases calls' with
      | zero =>
        obtain rfl : data = [] := List.length_eq_zero_iff.mp (Nat.le_zero.mp hle')
        rfl
      | succ calls' =>
        rw [nalUnitsFrom, nalUnitsFrom]
        split
        · next rest nal hcall =>
          have hlt := getNextNALUnit_length_lt hcall
          rw [ih calls' rest (by omega) (by omega)]
        · rfl
  exact hmore _ _ _ h (Nat.le_refl _)

theorem nalUnits_eq (data : List (BitVec 8)) : nalUnits data =
    match getNextNALUnit data true with
    | (rest, some nal) => nal :: nalUnits rest
    | (_, none) => [] := by
  rw [nalUnits]
  cases hlen : data.length with
  | zero =>
    obtain rfl : data = [] := List.length_eq_zero_iff.mp hlen
    rfl
  | succ calls =>
    rw [nalUnitsFrom]
    split
    · next rest nal hcall =>
      have hlt := getNextNALUnit_length_lt hcall
      rw [nalUnitsFrom_eq (by omega)]
    · rfl

theorem nalUnits_nil : nalUnits [] = [] := rfl

theorem visitNALUnits_eq {β : Type*} (visit : List (BitVec 8) → Option β) (done : β) (calls : Nat)
    (data : List (BitVec 8)) : visitNALUnits visit done calls data =
      ((nalUnitsFrom calls data).findSome? visit).getD done := by
  induction calls generalizing data with
  | zero => rfl
  | succ calls ih =>
    rw [visitNALUnits, nalUnitsFrom]
    split
    · next rest nal hcall =>
      rw [ih, List.findSome?_cons]
      cases visit nal <;> rfl
    · rfl

/-! ### What the loops see -/

theorem findNAL_eq (data : List (BitVec 8)) (type : BitVec 8) : findNAL data type =
    (nalUnits data).find? fun nal => nal ≠ [] ∧ nalType nal = type := by
  rw [findNAL, visitNALUnits_eq, ← nalUnits]
  induction nalUnits data with
  | nil => rfl
  | cons nal nals ih =>
    rw [List.findSome?_cons, List.find?_cons]
    by_cases hnal : nal ≠ [] ∧ nalType nal = type
    · simp only [if_pos hnal, decide_eq_true hnal, Option.getD_some]
    · simp only [if_neg hnal, decide_eq_false hnal, ih]

theorem isIDR_iff {data : List (BitVec 8)} :
    isIDR data ↔ ∃ nal ∈ nalUnits data, nal ≠ [] ∧ nalType nal = 5 := by
  rw [isIDR, visitNALUnits_eq, ← nalUnits]
  induction nalUnits data with
  | nil => simp
  | cons nal nals ih =>
    rw [List.findSome?_cons, List.exists_mem_cons_iff]
    by_cases hnil : nal = []
    · rw [if_pos hnil, or_iff_right fun h => h.1 hnil]
      exact ih
    · by_cases hidr : nalType nal = 5
      · rw [if_neg hnil, if_pos hidr]
        exact iff_of_true rfl (.inl ⟨hnil, hidr⟩)
      · rw [if_neg hnil, if_neg hidr, or_iff_right fun h => hidr h.2]
        exact ih

/-- The first NAL unit that is empty or belongs to a picture decides. -/
theorem isAVCReferenceFrame_eq (data : List (BitVec 8)) : isAVCReferenceFrame data =
    ((nalUnits data).find? fun nal => nal = [] ∨ nalType nal = 5 ∨ nalType nal = 1).all fun nal =>
      nal ≠ [] ∧ (nalType nal = 5 ∨ (byteAt nal 0 >>> 5) &&& 3 ≠ 0) := by
  rw [isAVCReferenceFrame, visitNALUnits_eq, ← nalUnits]
  induction nalUnits data with
  | nil => rfl
  | cons nal nals ih =>
    rw [List.findSome?_cons, List.find?_cons]
    by_cases hnil : nal = []
    · simp [hnil]
    · by_cases hidr : nalType nal = 5
      · simp [hnil, hidr]
      · by_cases hslice : nalType nal = 1
        · simp [hnil, hslice]
        · have hskip : ¬(nal = [] ∨ nalType nal = 5 ∨ nalType nal = 1) := by
            rintro (h | h | h) <;> contradiction
          rw [if_neg hnil, if_neg hidr, if_neg hslice, decide_eq_false hskip]
          exact ih

section Bytes

variable {data u rest : List (BitVec 8)} {i offset : Nat}

theorem byteAt_append (data rest : List (BitVec 8)) (i : Nat) :
    byteAt (data ++ rest) i =
      if i < data.length then byteAt data i else byteAt rest (i - data.length) := by
  rw [byteAt, byteAt, byteAt]
  split
  · next hlt => rw [List.getD_append _ _ _ _ hlt]
  · next hge => rw [List.getD_append_right _ _ _ _ (by omega)]

theorem lt_length_of_byteAt (h : byteAt data i ≠ 0) : i < data.length := by
  by_contra hge
  rw [byteAt, List.getD_eq_default _ _ (by omega)] at h
  exact h rfl

theorem isStartCode_iff : isStartCode data offset ↔
    byteAt data (offset + 2) = 1 ∧ byteAt data offset = 0 ∧ byteAt data (offset + 1) = 0 := by
  rw [isStartCode, decide_eq_true_iff]

theorem infix_of_isStartCode (h : isStartCode data offset) : [0, 0, 1] <:+: data := by
  obtain ⟨h₂, h₀, h₁⟩ := isStartCode_iff.mp h
  have hlt : offset + 2 < data.length := lt_length_of_byteAt (by rw [h₂]; decide)
  rw [byteAt, List.getD_eq_getElem _ _ (by omega)] at h₀ h₁ h₂
  refine ⟨data.take offset, data.drop (offset + 3), ?_⟩
  conv_rhs => rw [← List.take_append_drop offset data, List.drop_eq_getElem_cons (by omega),
    List.drop_eq_getElem_cons (by omega), List.drop_eq_getElem_cons (by omega), h₀, h₁, h₂]
  simp

/-- What may stand between two start codes. -/
structure EncodedNAL (nal : List (BitVec 8)) : Prop where
  nonempty : nal ≠ []
  lastNonzero : nal.getLast? ≠ some 0
  noStartCode : ¬[0, 0, 1] <:+: nal

instance (nal : List (BitVec 8)) : Decidable (EncodedNAL nal) :=
  decidable_of_iff (nal ≠ [] ∧ nal.getLast? ≠ some 0 ∧ ¬[0, 0, 1] <:+: nal)
    ⟨fun ⟨h, h', h''⟩ => ⟨h, h', h''⟩, fun h => ⟨h.nonempty, h.lastNonzero, h.noStartCode⟩⟩

theorem EncodedNAL.byteAt_last (h : EncodedNAL u) : byteAt u (u.length - 1) ≠ 0 := by
  have hpos := List.length_pos_iff.mpr h.nonempty
  have hlast := h.lastNonzero
  rw [List.getLast?_eq_getElem?, List.getElem?_eq_getElem (by omega)] at hlast
  rw [byteAt, List.getD_eq_getElem _ _ (by omega)]
  exact fun hzero => hlast (congrArg some hzero)

/-- No start code begins in a NAL unit, whatever follows it. -/
theorem EncodedNAL.not_isStartCode (h : EncodedNAL u) (hi : i < u.length) :
    ¬isStartCode (u ++ rest) i := by
  intro hcode
  obtain ⟨h₂, h₀, h₁⟩ := isStartCode_iff.mp hcode
  rw [byteAt_append] at h₀ h₁ h₂
  rw [if_pos hi] at h₀
  by_cases hin : i + 2 < u.length
  · rw [if_pos (by omega)] at h₁
    rw [if_pos hin] at h₂
    exact h.noStartCode (infix_of_isStartCode (isStartCode_iff.mpr ⟨h₂, h₀, h₁⟩))
  · -- then the last byte of the NAL unit is one of the zeros
    have hlast := h.byteAt_last
    by_cases hend : i + 1 < u.length
    · rw [if_pos hend] at h₁
      obtain hi : u.length - 1 = i + 1 := by omega
      exact hlast (hi ▸ h₁)
    · obtain hi : u.length - 1 = i := by omega
      exact hlast (hi ▸ h₀)

end Bytes

/-- A start code of three bytes after some more zeros: one of them makes the start code of four
bytes. -/
def startCode (zeros : Nat) : List (BitVec 8) := List.replicate zeros 0 ++ [0, 0, 1]

variable {u rest : List (BitVec 8)} {zeros zeros' i : Nat} {startCodeFollows : Bool}

theorem length_startCode (zeros : Nat) : (startCode zeros).length = zeros + 3 := by
  rw [startCode, List.length_append, List.length_replicate]
  rfl

theorem byteAt_startCode (hi : i < zeros + 3) :
    byteAt (startCode zeros ++ rest) i = if i = zeros + 2 then 1 else 0 := by
  rw [byteAt_append, if_pos (by rw [length_startCode]; exact hi), startCode, byteAt_append,
    List.length_replicate]
  by_cases hz : i < zeros
  · rw [if_pos hz, if_neg (by omega), byteAt, List.getD_replicate _ hz]
  · obtain ⟨k, rfl⟩ : ∃ k, i = zeros + k := ⟨i - zeros, by omega⟩
    have hk : k = 0 ∨ k = 1 ∨ k = 2 := by omega
    rcases hk with rfl | rfl | rfl <;> simp [byteAt]

/-- The start codes of data that begins with one. -/
theorem isStartCode_startCode : isStartCode (startCode zeros ++ rest) i ↔
    i = zeros ∨ zeros + 3 ≤ i ∧ isStartCode rest (i - (zeros + 3)) := by
  rw [isStartCode_iff, isStartCode_iff]
  by_cases hi : zeros + 3 ≤ i
  · have hskip : ∀ k, byteAt (startCode zeros ++ rest) (i + k) = byteAt rest (i - (zeros + 3) + k) := by
      intro k
      rw [byteAt_append, length_startCode, if_neg (by omega), Nat.sub_add_comm hi]
    have hne : i ≠ zeros := by omega
    have h0 := hskip 0
    rw [Nat.add_zero, Nat.add_zero] at h0
    simp only [hskip, h0, hi, hne, false_or, true_and]
  · rw [or_iff_left (fun h => hi h.1)]
    constructor
    · rintro ⟨h₂, h₀, h₁⟩
      -- the only one among the three bytes is the last
      by_contra hne
      rw [byteAt_startCode (by omega)] at h₀
      by_cases hlt : i < zeros
      · rw [byteAt_startCode (by omega), if_neg (by omega)] at h₂
        cases h₂
      · by_cases hlast : i = zeros + 2
        · rw [if_pos hlast] at h₀
          cases h₀
        · rw [byteAt_startCode (by omega), if_pos (by omega)] at h₁
          cases h₁
    · rintro rfl
      rw [byteAt_startCode (by omega), byteAt_startCode (by omega), byteAt_startCode (by omega),
        if_pos rfl, if_neg (by omega), if_neg (by omega)]
      exact ⟨rfl, rfl, rfl⟩

/-- The NAL unit after a start code hides none. -/
theorem EncodedNAL.isStartCode_iff (h : EncodedNAL u) :
    isStartCode (startCode zeros ++ (u ++ rest)) i ↔ i = zeros ∨
      zeros + 3 + u.length ≤ i ∧ isStartCode rest (i - (zeros + 3 + u.length)) := by
  rw [isStartCode_startCode]
  refine or_congr_right ?_
  by_cases hi : zeros + 3 ≤ i
  · by_cases hu : i - (zeros + 3) < u.length
    · refine ⟨fun hcode => absurd hcode.2 (h.not_isStartCode hu), fun hcode => ?_⟩
      exact absurd hcode.1 (by omega)
    · have hskip : isStartCode (u ++ rest) (i - (zeros + 3)) ↔
          isStartCode rest (i - (zeros + 3 + u.length)) := by
        obtain ⟨k, rfl⟩ : ∃ k, i = zeros + 3 + (u.length + k) :=
          ⟨i - (zeros + 3) - u.length, by omega⟩
        have hk : zeros + 3 + (u.length + k) - (zeros + 3 + u.length) = k := by omega
        have hbyte : ∀ k', byteAt (u ++ rest) (u.length + k + k') = byteAt rest (k + k') := by
          intro k'
          rw [byteAt_append, if_neg (by omega), Nat.add_assoc, Nat.add_sub_cancel_left]
        have h0 := hbyte 0
        rw [Nat.add_zero, Nat.add_zero] at h0
        rw [Nat.add_sub_cancel_left, hk, Foundation.isStartCode_iff, Foundation.isStartCode_iff,
          hbyte, h0, hbyte]
      rw [hskip]
      exact and_congr_left' ⟨fun _ => by omega, fun _ => hi⟩
  · exact ⟨fun hcode => absurd hcode.1 hi, fun hcode => absurd hcode.1 (by omega)⟩

/-- Zeros after a NAL unit are taken off, and nothing of it is. -/
theorem EncodedNAL.trimZeros_eq (h : EncodedNAL u) {pre : List (BitVec 8)} (k : Nat)
    (hzero : ∀ i < k, byteAt rest i = 0) :
    trimZeros (pre ++ (u ++ rest)) pre.length (pre.length + u.length + k) =
      pre.length + u.length := by
  have hpos := List.length_pos_iff.mpr h.nonempty
  induction k with
  | zero =>
    have hlast := h.byteAt_last
    obtain ⟨n, hn⟩ : ∃ n, pre.length + u.length = n + 1 := ⟨pre.length + u.length - 1, by omega⟩
    rw [Nat.add_zero, hn, trimZeros, if_neg]
    rintro ⟨-, hend⟩
    rw [byteAt_append, if_neg (by omega), byteAt_append, if_pos (by omega)] at hend
    obtain hn : n - pre.length = u.length - 1 := by omega
    exact hlast (hn ▸ hend)
  | succ k ih =>
    have hend : byteAt (pre ++ (u ++ rest)) (pre.length + u.length + k) = 0 := by
      rw [byteAt_append, if_neg (by omega), byteAt_append, if_neg (by omega), ← hzero k (by omega)]
      congr 1
      omega
    rw [← Nat.add_assoc, trimZeros, if_pos ⟨by omega, hend⟩]
    exact ih fun i hi => hzero i (by omega)

/-- The first loop of a call stops at the first start code. -/
theorem EncodedNAL.upTo_start (h : EncodedNAL u) :
    Search.upTo (isStartCode (startCode zeros ++ (u ++ rest)))
      ((startCode zeros ++ (u ++ rest)).length - 2) 0 = zeros := by
  have hlen : (startCode zeros ++ (u ++ rest)).length = zeros + 3 + (u ++ rest).length := by
    rw [List.length_append, length_startCode]
  refine Search.upTo_eq (Nat.zero_le _) (by omega) (fun k _ hk hcode => ?_) fun _ => ?_
  · obtain hk' | hk' := h.isStartCode_iff.mp hcode <;> omega
  · exact h.isStartCode_iff.mpr (.inl rfl)

/-- The other loops go on to the first start code after the NAL unit, or to the end. -/
theorem EncodedNAL.upTo_next (h : EncodedNAL u) {j : Nat} (hj : zeros + 3 + u.length ≤ j)
    (hend : j ≤ (startCode zeros ++ (u ++ rest)).length)
    (hnot : ∀ k, k + 2 < j - (zeros + 3 + u.length) → ¬isStartCode rest k)
    (hat : j < (startCode zeros ++ (u ++ rest)).length →
      zeros + 3 + u.length + 2 ≤ j ∧ isStartCode rest (j - 2 - (zeros + 3 + u.length))) :
    Search.upTo (fun offset => isStartCode (startCode zeros ++ (u ++ rest)) (offset - 2))
      (startCode zeros ++ (u ++ rest)).length (zeros + 3) = j := by
  refine Search.upTo_eq (by omega) hend (fun k hk hkj hcode => ?_) fun hlt => ?_
  · obtain hstart | ⟨hge, hcode⟩ := h.isStartCode_iff.mp hcode
    · omega
    · exact hnot _ (by omega) hcode
  · obtain ⟨hge, hcode⟩ := hat hlt
    exact h.isStartCode_iff.mpr (.inr ⟨by omega, hcode⟩)

/-- A call on a start code and a NAL unit, when the loops go on to `j`, over `k` zeros. -/
theorem EncodedNAL.getNextNALUnit_eq (h : EncodedNAL u) {j k : Nat}
    (hnext : Search.upTo (fun offset => isStartCode (startCode zeros ++ (u ++ rest)) (offset - 2))
      (startCode zeros ++ (u ++ rest)).length (zeros + 3) = j)
    (hj : (if j = (startCode zeros ++ (u ++ rest)).length then
      (startCode zeros ++ (u ++ rest)).length + 2 else j) = zeros + 3 + u.length + k + 2)
    (hzero : ∀ i < k, byteAt rest i = 0)
    (hfollows : j = (startCode zeros ++ (u ++ rest)).length → startCodeFollows = true) :
    getNextNALUnit (startCode zeros ++ (u ++ rest)) startCodeFollows =
      (if k + 4 < rest.length then rest.drop k else [], some u) := by
  have hlen : (startCode zeros ++ (u ++ rest)).length = zeros + 3 + u.length + rest.length := by
    rw [← List.append_assoc, List.length_append, List.length_append, length_startCode]
  have hpos := List.length_pos_iff.mpr h.nonempty
  have hnot : ¬(j = (startCode zeros ++ (u ++ rest)).length ∧ startCodeFollows = false) := by
    rintro ⟨hsize, hfalse⟩
    rw [hfollows hsize] at hfalse
    cases hfalse
  -- the zeros before the next start code belong to neither unit
  have htrim : trimZeros (startCode zeros ++ (u ++ rest)) (zeros + 3) (zeros + 3 + u.length + k) =
      zeros + 3 + u.length := by
    rw [← length_startCode zeros]
    exact h.trimZeros_eq k hzero
  have hnal : (((startCode zeros ++ (u ++ rest)).drop (zeros + 3)).take
      (zeros + 3 + u.length - (zeros + 3))) = u := by
    rw [List.drop_left' (length_startCode zeros), Nat.add_sub_cancel_left, List.take_left' rfl]
  have hrest : (startCode zeros ++ (u ++ rest)).drop (zeros + 3 + u.length + k) = rest.drop k := by
    rw [← List.drop_drop, ← List.append_assoc, List.drop_left']
    rw [List.length_append, length_startCode]
  simp only [getNextNALUnit, h.upTo_start, hnext]
  rw [if_neg (by omega), if_neg (by omega), if_neg hnot, hj, Nat.add_sub_cancel, htrim, hnal, hrest,
    hlen]
  congr 1
  exact if_congr (by omega) rfl rfl

theorem EncodedNAL.getNextNALUnit_last (h : EncodedNAL u) :
    getNextNALUnit (startCode zeros ++ u) true = ([], some u) := by
  have hlen : (startCode zeros ++ (u ++ [])).length = zeros + 3 + u.length := by
    rw [List.append_nil, List.length_append, length_startCode]
  have hnone : ∀ i, ¬isStartCode [] i := by
    intro i hcode
    have hlt := (infix_of_isStartCode hcode).length_le
    cases hlt
  have hnext := h.upTo_next (Nat.le_refl (zeros + 3 + u.length)) (Nat.le_of_eq hlen.symm)
    (fun k _ => hnone k) fun hlt => by omega
  have hcall := h.getNextNALUnit_eq (k := 0) hnext (by rw [hlen, if_pos rfl])
    (fun i hi => absurd hi (Nat.not_lt_zero i)) fun _ => rfl
  rw [List.append_nil] at hcall
  exact hcall

theorem EncodedNAL.getNextNALUnit_next (h : EncodedNAL u) :
    getNextNALUnit (startCode zeros ++ (u ++ (startCode zeros' ++ rest))) startCodeFollows =
      (if 1 < rest.length then startCode 0 ++ rest else [], some u) := by
  have hlen : (startCode zeros ++ (u ++ (startCode zeros' ++ rest))).length =
      zeros + 3 + u.length + (zeros' + 3 + rest.length) := by
    simp only [List.length_append, length_startCode]
    omega
  have hskip : (startCode zeros' ++ rest).drop zeros' = startCode 0 ++ rest := by
    rw [startCode, List.append_assoc, List.drop_left' List.length_replicate]
    rfl
  have hnext : Search.upTo
      (fun offset => isStartCode (startCode zeros ++ (u ++ (startCode zeros' ++ rest))) (offset - 2))
      (startCode zeros ++ (u ++ (startCode zeros' ++ rest))).length (zeros + 3) =
      zeros + 3 + u.length + zeros' + 2 := by
    refine h.upTo_next (by omega) (by omega) (fun k hk hcode => ?_) fun _ => ⟨by omega, ?_⟩
    · obtain hcode | hcode := isStartCode_startCode.mp hcode <;> omega
    · rw [isStartCode_startCode]
      exact .inl (by omega)
  have hzero : ∀ i < zeros', byteAt (startCode zeros' ++ rest) i = 0 := by
    intro i hi
    rw [byteAt_startCode (by omega), if_neg (by omega)]
  rw [h.getNextNALUnit_eq hnext (if_neg (by omega)) hzero fun heq => by omega, hskip,
    List.length_append, length_startCode]
  congr 1
  exact if_congr (by omega) rfl rfl

/-! ### All calls -/

/-- NAL units, each with the number of zeros before its start code. -/
def annexB (units : List (Nat × List (BitVec 8))) : List (BitVec 8) :=
  units.flatMap fun (zeros, nal) => startCode zeros ++ nal

/-- The loop ends before a last NAL unit of one byte, unless it is the only one. -/
def AllShown (units : List (Nat × List (BitVec 8))) : Prop :=
  units.length = 1 ∨ ∀ last ∈ units.getLast?, 2 ≤ last.2.length

instance (units : List (Nat × List (BitVec 8))) : Decidable (AllShown units) :=
  inferInstanceAs (Decidable (_ ∨ _))

theorem length_annexB (units : List (Nat × List (BitVec 8))) : units.length ≤ (annexB units).length := by
  induction units with
  | nil => exact Nat.le_refl 0
  | cons unit units ih =>
    rw [annexB, List.flatMap_cons, ← annexB, List.length_append, List.length_append,
      length_startCode, List.length_cons]
    omega

theorem allShown_cons {zeros zeros' : Nat} {nal nal' : List (BitVec 8)}
    {units : List (Nat × List (BitVec 8))} (h : 1 < (nal' ++ annexB units).length) :
    AllShown ((0, nal') :: units) ↔ AllShown ((zeros, nal) :: (zeros', nal') :: units) := by
  rw [AllShown, AllShown, List.getLast?_cons_cons]
  cases units with
  | nil =>
    rw [annexB, List.flatMap_nil, List.append_nil] at h
    refine ⟨fun _ => .inr ?_, fun _ => .inl rfl⟩
    rintro _ ⟨⟩
    exact h
  | cons unit units =>
    rw [List.getLast?_cons_cons, List.getLast?_cons_cons]
    exact or_congr_left ⟨nofun, nofun⟩

theorem nalUnits_annexB {zeros : Nat} {nal : List (BitVec 8)}
    {units : List (Nat × List (BitVec 8))} (hnal : EncodedNAL nal)
    (hunits : ∀ unit ∈ units, EncodedNAL unit.2) :
    nalUnits (annexB ((zeros, nal) :: units)) =
      if AllShown ((zeros, nal) :: units) then nal :: units.map Prod.snd
      else (nal :: units.map Prod.snd).dropLast := by
  induction units generalizing zeros nal with
  | nil =>
    have hdata : annexB [(zeros, nal)] = startCode zeros ++ nal := List.append_nil _
    rw [hdata, nalUnits_eq, hnal.getNextNALUnit_last, if_pos (.inl rfl)]
    dsimp only
    rw [nalUnits_nil, List.map_nil]
  | cons unit units ih =>
    obtain ⟨zeros', nal'⟩ := unit
    obtain ⟨hnal', hunits⟩ := List.forall_mem_cons.mp hunits
    have hdata : annexB ((zeros, nal) :: (zeros', nal') :: units) =
        startCode zeros ++ (nal ++ (startCode zeros' ++ (nal' ++ annexB units))) := by
      simp [annexB]
    rw [hdata, nalUnits_eq, hnal.getNextNALUnit_next]
    dsimp only
    -- the next call starts on the last zeros of the start code, if enough follows
    by_cases hmore : 1 < (nal' ++ annexB units).length
    · have hrest : startCode 0 ++ (nal' ++ annexB units) = annexB ((0, nal') :: units) := by
        simp [annexB]
      rw [if_pos hmore, hrest, ih hnal' hunits, List.map_cons,
        List.dropLast_cons_cons]
      by_cases hall : AllShown ((zeros, nal) :: (zeros', nal') :: units)
      · rw [if_pos hall, if_pos ((allShown_cons hmore).mpr hall)]
      · rw [if_neg hall, if_neg (mt (allShown_cons hmore).mp hall)]
    · rw [if_neg hmore, nalUnits_nil]
      have hpos : 0 < nal'.length := List.length_pos_iff.mpr hnal'.nonempty
      have hle := length_annexB units
      rw [List.length_append] at hmore
      obtain rfl : units = [] := List.length_eq_zero_iff.mp (by omega)
      -- a last unit of one byte is not looked for
      have hlost : ¬AllShown [(zeros, nal), (zeros', nal')] := by
        rintro (hone | hlast)
        · cases hone
        · have htwo := hlast (zeros', nal') rfl
          dsimp only at htwo
          omega
      rw [if_neg hlost]
      rfl

/-- The calls return all the NAL units if there is only one or the last one has two bytes at
least: the end of the data is not looked at for a shorter one. -/
theorem nalUnits_annexB_iff {units : List (Nat × List (BitVec 8))} (hne : units ≠ [])
    (hunits : ∀ unit ∈ units, EncodedNAL unit.2) :
    nalUnits (annexB units) = units.map Prod.snd ↔
      units.length = 1 ∨ ∀ last ∈ units.getLast?, 2 ≤ last.2.length := by
  obtain ⟨⟨zeros, nal⟩, units, rfl⟩ := List.exists_cons_of_ne_nil hne
  obtain ⟨hnal, hunits⟩ := List.forall_mem_cons.mp hunits
  rw [nalUnits_annexB hnal hunits, ← AllShown]
  split
  · next hall => exact ⟨fun _ => hall, fun _ => rfl⟩
  · next hlost =>
    refine ⟨fun heq => ?_, fun hall => absurd hall hlost⟩
    have hlen := congrArg List.length heq
    simp at hlen

theorem nalUnits_annexB_iff_twoUnits :
    nalUnits (annexB [(1, [0x67, 0x42]), (0, [0x68, 0xce])]) = [[0x67, 0x42], [0x68, 0xce]] :=
  (nalUnits_annexB_iff (by decide) (by decide)).mpr (by decide)

/-- A picture and the end of its sequence, which has one byte. -/
theorem nalUnits_loses_last :
    annexB [(1, [0x65, 0x88]), (0, [0x0a])] = [0, 0, 0, 1, 0x65, 0x88, 0, 0, 1, 0x0a] ∧
      nalUnits [0, 0, 0, 1, 0x65, 0x88, 0, 0, 1, 0x0a] = [[0x65, 0x88]] ∧
      findNAL [0, 0, 0, 1, 0x65, 0x88, 0, 0, 1, 0x0a] 10 = none := by
  decide

end MediaFramework.Foundation
