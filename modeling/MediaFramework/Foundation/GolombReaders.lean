import MediaFramework.Foundation.AvcParsing
import MediaFramework.Foundation.ReaderShifts

/-!
# Codes that may be cut short

`parseUEWithFallback` and `parseSEWithFallback` of `media/libstagefright/foundation/avc_utils.cpp`.
They read codes as `parseUE` and `parseSE` do, and do not abort where the data end.
-/

namespace MediaFramework.Foundation

open Bits ExpGolomb Consume ABitReader

/-- The loop of `parseUEWithFallback`. It ends where the data do, so a pass more than there are bits
is enough. -/
def countZeroesWithFallback : Nat → BitVec 32 → BitReading (BitVec 32)
  | 0, _, _ => none
  | passes + 1, numZeroes, br =>
    match br.getBitsWithFallback 1 1 with
    | (br, bit) =>
      if bit = 0 then countZeroesWithFallback passes (numZeroes + 1) br else some (numZeroes, br)

/-- `parseUEWithFallback` behind its loop. -/
def parseSuffixWithFallback (fallback : BitVec 32) (numZeroes : Nat) : BitReading (BitVec 32) := fun br =>
  if numZeroes < 32 then
    match br.getBitsGraceful numZeroes with
    | (br, some x) => some (x + (1#32 <<< numZeroes) - 1, br)
    | (br, none) => some (fallback, br)
  else some (fallback, (br.skipBitsLoop numZeroes numZeroes).1)

def parseUEWithFallback (fallback : BitVec 32) : BitReading (BitVec 32) := fun br => StateT.run (do
  let numZeroes ← countZeroesWithFallback (br.numBitsLeft + 1) 0
  parseSuffixWithFallback fallback numZeroes.toNat) br

def parseSEWithFallback (fallback : Int) : BitReading Int := do
  let codeNum ← parseUEWithFallback (~~~0)
  if codeNum = ~~~0 then return fallback
  else if codeNum &&& 1 ≠ 0 then return ((codeNum + 1) / 2).toInt
  else return (-(codeNum / 2)).toInt

/-! ### Shifts -/

def countShifts : Nat → ABitReader → List Nat
  | 0, _ => []
  | passes + 1, br =>
    br.gracefulShifts 1 ++
      match br.getBitsWithFallback 1 1 with
      | (br, bit) => if bit = 0 then countShifts passes br else []

def suffixShifts (numZeroes : Nat) (br : ABitReader) : List Nat :=
  if numZeroes < 32 then
    br.gracefulShifts numZeroes ++
      match br.getBitsGraceful numZeroes with
      | (_, some _) => [numZeroes]
      | (_, none) => []
  else br.skipShifts numZeroes numZeroes

/-- The amounts of the shifts of `parseUEWithFallback`, in order. -/
def parseUEShifts (br : ABitReader) : List Nat :=
  countShifts (br.numBitsLeft + 1) br ++
    match countZeroesWithFallback (br.numBitsLeft + 1) 0 br with
    | some (numZeroes, br) => suffixShifts numZeroes.toNat br
    | none => []

variable {r : ABitReader} {bs : List Bool}

/-! ### The loop -/

/-- At the end of the data the bit is a one. -/
theorem ABitReader.Left.bit (h : r.Left bs) :
    ∃ r', r.getBitsWithFallback 1 1 = (r', if bs.headD true then 1 else 0) ∧ r'.Left bs.tail ∧
      Moved r r' := by
  have hmoved := h.moved (n := 1) (by decide) (by decide)
  cases bs with
  | nil =>
    obtain ⟨r', hnone, hleft⟩ := h.getBitsGraceful_short (n := 1) (by decide) (by decide)
    rw [hnone] at hmoved
    exact ⟨r', by rw [getBitsWithFallback, hnone]; rfl, hleft, hmoved⟩
  | cons b bs =>
    have hone : ofBits 32 [b] = if b then 1 else 0 := by cases b <;> rfl
    have hbits : r.Left ([b] ++ bs) := h
    obtain ⟨r', hsome, hleft⟩ := hbits.getBitsGraceful (by decide : 1 ≤ 32)
    rw [List.length_singleton] at hsome
    rw [hsome] at hmoved
    exact ⟨r', by rw [getBitsWithFallback, hsome, hone]; rfl, hleft, hmoved⟩

/-- The bits from the first one on. -/
def fromOne (bs : List Bool) : List Bool := bs.dropWhile (!·)

def leadingZeros (bs : List Bool) : Nat := (bs.takeWhile (!·)).length

theorem leadingZeros_false (bs : List Bool) : leadingZeros (false :: bs) = leadingZeros bs + 1 := rfl

theorem countZeroesWithFallback_eq (h : r.Left bs) {passes : Nat} (hpasses : bs.length < passes)
    (numZeroes : BitVec 32) :
    ∃ r', countZeroesWithFallback passes numZeroes r =
        some (numZeroes + BitVec.ofNat 32 (leadingZeros bs), r') ∧
      r'.Left (fromOne bs).tail ∧ Moved r r' := by
  induction passes generalizing r bs numZeroes with
  | zero => omega
  | succ passes ih =>
    obtain ⟨r', hbit, hleft, hmoved⟩ := h.bit
    rw [countZeroesWithFallback, hbit]
    dsimp only
    rcases bs with - | ⟨_ | _, bs⟩
    · exact ⟨r', by simp [leadingZeros], hleft, hmoved⟩
    · obtain ⟨r'', hcount, hrest, hmore⟩ := ih hleft (Nat.lt_of_succ_lt_succ hpasses) (numZeroes + 1)
      refine ⟨r'', ?_, hrest, hmoved.trans hmore⟩
      rw [if_pos (by rfl), hcount, leadingZeros_false, BitVec.ofNat_add, BitVec.add_assoc,
        BitVec.add_comm 1]
      rfl
    · exact ⟨r', by simp [leadingZeros], hleft, hmoved⟩

theorem countShifts_lt (h : r.Left bs) (passes : Nat) : ∀ s ∈ countShifts passes r, s < 32 := by
  induction passes generalizing r bs with
  | zero => exact fun s hs => by cases hs
  | succ passes ih =>
    intro s hs
    rw [countShifts] at hs
    obtain ⟨r', hbit, hleft, -⟩ := h.bit
    rw [hbit] at hs
    dsimp only at hs
    rcases List.mem_append.mp hs with hfirst | hmore
    · exact gracefulShifts_lt h (by decide) s hfirst
    · by_cases hone : bs.headD true = true
      · rw [if_pos hone, if_neg (by decide)] at hmore
        cases hmore
      · rw [if_neg hone, if_pos rfl] at hmore
        exact ih hleft s hmore

/-- Where the loop leaves the reader. -/
theorem parseUEWithFallback_eq (h : r.Left bs) :
    ∃ r', r'.Left (fromOne bs).tail ∧ Moved r r' ∧
      (∀ fallback, parseUEWithFallback fallback r =
        parseSuffixWithFallback fallback (leadingZeros bs % 2 ^ 32) r') ∧
      ((∀ s ∈ parseUEShifts r, s < 32) ↔
        ∀ s ∈ suffixShifts (leadingZeros bs % 2 ^ 32) r', s < 32) := by
  have hpasses : bs.length < r.numBitsLeft + 1 := Nat.lt_succ_of_le (Nat.le_of_eq h.length)
  obtain ⟨r', hcount, hleft, hmoved⟩ := countZeroesWithFallback_eq h hpasses 0
  have hzero : 0 + BitVec.ofNat 32 (leadingZeros bs) = BitVec.ofNat 32 (leadingZeros bs) :=
    BitVec.zero_add _
  rw [hzero] at hcount
  refine ⟨r', hleft, hmoved, fun fallback => ?_, ?_⟩
  · show (countZeroesWithFallback (r.numBitsLeft + 1) 0 r).bind _ = _
    rw [hcount, ← BitVec.toNat_ofNat]
    rfl
  · rw [parseUEShifts, hcount]
    dsimp only
    rw [BitVec.toNat_ofNat, List.forall_mem_append]
    exact and_iff_right (countShifts_lt h _)

/-! ### The bits behind the one -/

theorem parseSuffixWithFallback_complete {xs rest : List Bool} (h : r.Left (xs ++ rest))
    (hfits : xs.length < 32) (fallback : BitVec 32) :
    ∃ r', parseSuffixWithFallback fallback xs.length r =
        some (ofBits 32 xs + (1#32 <<< xs.length) - 1, r') ∧ r'.Left rest := by
  obtain ⟨r', hsome, hleft⟩ := h.getBitsGraceful (Nat.le_of_lt hfits)
  exact ⟨r', by rw [parseSuffixWithFallback, if_pos hfits, hsome], hleft⟩

theorem parseSuffixWithFallback_short (h : r.Left bs) {numZeroes : Nat}
    (hshort : 32 ≤ numZeroes ∨ bs.length < numZeroes) (fallback : BitVec 32) :
    ∃ r', parseSuffixWithFallback fallback numZeroes r = some (fallback, r') := by
  rw [parseSuffixWithFallback]
  by_cases hfits : numZeroes < 32
  · obtain ⟨r', hnone, -⟩ := h.getBitsGraceful_short (by omega) (Nat.le_of_lt hfits)
    exact ⟨r', by rw [if_pos hfits, hnone]⟩
  · exact ⟨_, by rw [if_neg hfits]⟩

theorem suffixShifts_lt (h : r.Left bs) (numZeroes : Nat) :
    (∀ s ∈ suffixShifts numZeroes r, s < 32) ↔ (32 ≤ numZeroes → ¬Aligned r) := by
  rw [suffixShifts]
  by_cases hfits : numZeroes < 32
  · rw [if_pos hfits, List.forall_mem_append]
    refine iff_of_true ⟨gracefulShifts_lt h hfits, ?_⟩ (fun hlarge => by omega)
    split
    · intro s hs
      rwa [List.mem_singleton.mp hs]
    · exact fun s hs => by cases hs
  · rw [if_neg hfits, skipShifts_lt h (by omega) (Nat.le_refl _)]
    exact ⟨fun hnot _ => hnot, fun hnot => hnot (by omega)⟩

/-! ### Codes that are complete -/

theorem leadingZeros_replicate (k : Nat) (xs : List Bool) :
    leadingZeros (List.replicate k false ++ true :: xs) = k := by
  induction k with
  | zero => rfl
  | succ k ih => rw [List.replicate_succ, List.cons_append, leadingZeros_false, ih]

theorem fromOne_replicate (k : Nat) (xs : List Bool) :
    fromOne (List.replicate k false ++ true :: xs) = true :: xs := by
  induction k with
  | zero => rfl
  | succ k ih => exact ih

theorem ue_append (v : Nat) (rest : List Bool) : ue v ++ rest =
    List.replicate (zeros v) false ++ true :: (fixed (zeros v) (v + 1 - 2 ^ zeros v) ++ rest) := by
  rw [ue, List.append_assoc, List.cons_append]

theorem reads_parseUEWithFallback {v : Nat} (hv : v + 1 < 2 ^ 32) (fallback : BitVec 32) :
    Reads Left (parseUEWithFallback fallback) (ue v) (· = BitVec.ofNat 32 v) := by
  intro r rest h
  have hz := zeros_lt hv
  have hlength := length_fixed (zeros v) (v + 1 - 2 ^ zeros v)
  rw [ue_append] at h
  obtain ⟨r', hleft, -, heq, -⟩ := parseUEWithFallback_eq h
  rw [leadingZeros_replicate, Nat.mod_eq_of_lt (by omega)] at heq
  rw [fromOne_replicate, List.tail_cons] at hleft
  obtain ⟨r'', hsuffix, hrest⟩ := parseSuffixWithFallback_complete hleft (by omega) fallback
  rw [hlength, ofBits_fixed (suffix_lt v), ofNat_codeNum (suffix_add v) hv] at hsuffix
  exact ⟨_, r'', (heq fallback).trans hsuffix, rfl, hrest⟩

theorem reads_parseSEWithFallback {v : Nat} (hv : v + 1 < 2 ^ 32) (fallback : Int) :
    Reads Left (parseSEWithFallback fallback) (ue v) (· = signed v) := by
  have hvalue := toInt_codeNum hv
  apply (reads_parseUEWithFallback hv (~~~0)).last
  rintro code rfl
  have hother : BitVec.ofNat 32 v ≠ ~~~0 := by
    intro hones
    have hnat := congrArg BitVec.toNat hones
    rw [BitVec.toNat_ofNat, Nat.mod_eq_of_lt (by omega)] at hnat
    have hlast : (~~~0 : BitVec 32).toNat = 2 ^ 32 - 1 := by decide
    omega
  rw [if_neg hother]
  split at hvalue
  · next hodd =>
    rw [if_pos hodd]
    exact Reads.pure hvalue
  · next heven =>
    rw [if_neg heven]
    exact Reads.pure hvalue

/-- `-signed(codeNum / 2)` is the number it says. -/
theorem negates_half (codeNum : BitVec 32) :
    (codeNum / 2).toInt = (codeNum.toNat / 2 : Nat) ∧ (codeNum / 2).negOverflow = false := by
  have hhalf : (codeNum / 2).toNat = codeNum.toNat / 2 := by
    rw [BitVec.toNat_udiv]
    rfl
  have hint : (codeNum / 2).toInt = (codeNum.toNat / 2 : Nat) := by
    rw [BitVec.toInt_eq_toNat_of_lt (by omega), hhalf]
  refine ⟨hint, ?_⟩
  rw [BitVec.negOverflow, hint, beq_eq_false_iff_ne]
  omega

/-! ### All bits -/

/-- What the readers promise of the bits that are left: of a code that is complete, and of any bits. -/
structure ReadsCodes (r : ABitReader) (bs : List Bool) : Prop where
  ue_complete : ∀ v rest, v + 1 < 2 ^ 32 → bs = ue v ++ rest →
    (∃ r', parseUE r = some (BitVec.ofNat 32 v, r') ∧ r'.Left rest) ∧
      ∀ fallback, ∃ r',
        parseUEWithFallback fallback r = some (BitVec.ofNat 32 v, r') ∧ r'.Left rest
  se_complete : ∀ v rest, v + 1 < 2 ^ 32 → bs = ue v ++ rest →
    (∃ r', parseSE r = some (signed v, r') ∧ r'.Left rest) ∧
      (∀ fallback, ∃ r', parseSEWithFallback fallback r = some (signed v, r') ∧ r'.Left rest) ∧
      (BitVec.ofNat 32 v / 2).toInt = (v / 2 : Nat) ∧ (BitVec.ofNat 32 v / 2).negOverflow = false
  ends : ∀ fallback, ∃ value r', parseUEWithFallback fallback r = some (value, r') ∧
    (value = fallback ∨ ∃ v, ue v <+: bs ∧ value.toNat = v)
  shifts : ∀ s ∈ parseUEShifts r, s < 32

/-- There are bits; the count of the zeros does not come out below its own number and below 32, but
where the bits behind are fewer; and a count from 32 on does not end just before a word. -/
structure Safe (mNumBitsLeft : Nat) (bs : List Bool) : Prop where
  left : bs ≠ []
  counted : 2 ^ 32 ≤ leadingZeros bs → 32 ≤ leadingZeros bs % 2 ^ 32 ∨
    (fromOne bs).tail.length < leadingZeros bs % 2 ^ 32
  shifted : 32 ≤ leadingZeros bs % 2 ^ 32 →
    ¬(mNumBitsLeft ≤ leadingZeros bs + 1 ∧ 32 ∣ leadingZeros bs + 1 - mNumBitsLeft ∧
      32 ≤ (fromOne bs).tail.length)

theorem replicate_fromOne (bs : List Bool) :
    bs = List.replicate (leadingZeros bs) false ++ fromOne bs ∧
      (fromOne bs = [] ∨ fromOne bs = true :: (fromOne bs).tail) := by
  induction bs with
  | nil => exact ⟨rfl, .inl rfl⟩
  | cons b bs ih =>
    cases b with
    | true => exact ⟨rfl, .inr rfl⟩
    | false => exact ⟨congrArg (false :: ·) ih.1, ih.2⟩

theorem parseUEShifts_lt (h : r.Left bs) :
    (∀ s ∈ parseUEShifts r, s < 32) ↔ (32 ≤ leadingZeros bs % 2 ^ 32 →
      ¬(r.mNumBitsLeft ≤ leadingZeros bs + 1 ∧ 32 ∣ leadingZeros bs + 1 - r.mNumBitsLeft ∧
        32 ≤ (fromOne bs).tail.length)) := by
  obtain ⟨r', hleft, hmoved, -, hshifts⟩ := parseUEWithFallback_eq h
  rw [hshifts, suffixShifts_lt hleft]
  obtain ⟨hbits, hend | hone⟩ := replicate_fromOne bs
  · rw [hend, List.tail_nil] at hleft ⊢
    have hnot : ¬Aligned r' := by
      rw [Aligned, hleft.nil.1, hleft.nil.2, List.length_nil]
      omega
    refine iff_of_true (fun _ => hnot) fun _ hmore => ?_
    rw [List.length_nil] at hmore
    omega
  · rw [hone, List.append_cons] at hbits
    rw [hbits] at h
    rw [hmoved.aligned h hleft, List.length_append, List.length_replicate, List.length_singleton]

/-- A code is complete, or it is not and there are 32 zeros or too few bits behind the one. -/
theorem parseUEWithFallback_ends (h : r.Left bs) (hsome : bs ≠ [])
    (hcounted : 2 ^ 32 ≤ leadingZeros bs → 32 ≤ leadingZeros bs % 2 ^ 32 ∨
      (fromOne bs).tail.length < leadingZeros bs % 2 ^ 32) (fallback : BitVec 32) :
    ∃ value r', parseUEWithFallback fallback r = some (value, r') ∧
      (value = fallback ∨ ∃ v, ue v <+: bs ∧ value.toNat = v) := by
  obtain ⟨hbits, hone⟩ := replicate_fromOne bs
  by_cases hshort : 32 ≤ leadingZeros bs % 2 ^ 32 ∨
      (fromOne bs).tail.length < leadingZeros bs % 2 ^ 32
  · obtain ⟨r', hleft, -, heq, -⟩ := parseUEWithFallback_eq h
    obtain ⟨r'', hsuffix⟩ := parseSuffixWithFallback_short hleft hshort fallback
    exact ⟨fallback, r'', (heq fallback).trans hsuffix, .inl rfl⟩
  · have hfew : leadingZeros bs < 2 ^ 32 := Nat.lt_of_not_le fun hmany => hshort (hcounted hmany)
    rw [Nat.mod_eq_of_lt hfew] at hshort
    rcases hone with hend | hone
    · rw [hend, List.append_nil] at hbits
      have hpos := List.length_pos_iff.mpr hsome
      rw [hbits, List.length_replicate] at hpos
      rw [hend, List.tail_nil, List.length_nil] at hshort
      omega
    · have htake : ((fromOne bs).tail.take (leadingZeros bs)).length = leadingZeros bs := by
        rw [List.length_take]
        omega
      have hcode := ue_of_bits ((fromOne bs).tail.take (leadingZeros bs))
      rw [htake] at hcode
      generalize hv : 2 ^ leadingZeros bs - 1 +
        (ofBits (leadingZeros bs) ((fromOne bs).tail.take (leadingZeros bs))).toNat = v at hcode
      have hword : bs = ue v ++ (fromOne bs).tail.drop (leadingZeros bs) := by
        rw [hcode, List.append_assoc, List.cons_append, List.take_append_drop, ← hone]
        exact hbits
      have hlt : v + 1 < 2 ^ 32 := by
        have hpow : 2 ^ (leadingZeros bs + 1) ≤ 2 ^ 32 :=
          Nat.pow_le_pow_right (by decide) (by omega)
        have hsuffix :=
          (ofBits (leadingZeros bs) ((fromOne bs).tail.take (leadingZeros bs))).isLt
        rw [Nat.pow_succ] at hpow
        omega
      obtain ⟨value, r', hread, rfl, -⟩ := reads_parseUEWithFallback hlt fallback r _ (hword ▸ h)
      refine ⟨_, r', hread, .inr ⟨v, ⟨_, hword.symm⟩, ?_⟩⟩
      rw [BitVec.toNat_ofNat, Nat.mod_eq_of_lt (by omega)]

/-- Of as many bits as are asked for the result does not depend on `fallback`, so it is a code's. -/
theorem ReadsCodes.code (hreads : ReadsCodes r bs) (h : r.Left bs)
    (hfew : leadingZeros bs % 2 ^ 32 < 32)
    (henough : leadingZeros bs % 2 ^ 32 ≤ (fromOne bs).tail.length) :
    ∃ v, ue v <+: bs ∧ v < 2 ^ 32 := by
  obtain ⟨r', hleft, -, heq, -⟩ := parseUEWithFallback_eq h
  have htake : ((fromOne bs).tail.take (leadingZeros bs % 2 ^ 32)).length =
      leadingZeros bs % 2 ^ 32 := by
    rw [List.length_take, Nat.min_eq_left henough]
  rw [← List.take_append_drop (leadingZeros bs % 2 ^ 32) (fromOne bs).tail] at hleft
  have hread := parseSuffixWithFallback_complete hleft (by rwa [htake])
  rw [htake] at hread
  generalize hx : ofBits 32 ((fromOne bs).tail.take (leadingZeros bs % 2 ^ 32)) +
    (1#32 <<< (leadingZeros bs % 2 ^ 32)) - 1 = x at hread
  obtain ⟨r'', hsuffix, -⟩ := hread (x + 1)
  obtain ⟨value, r₁, hparse, hvalue⟩ := hreads.ends (x + 1)
  rw [heq, hsuffix] at hparse
  obtain ⟨rfl, -⟩ := Prod.mk.inj (Option.some.inj hparse)
  rcases hvalue with hfallback | ⟨v, hcode, rfl⟩
  · have hnat := congrArg BitVec.toNat hfallback
    rw [BitVec.toNat_add] at hnat
    have hone : (1 : BitVec 32).toNat = 1 := rfl
    omega
  · exact ⟨_, hcode, x.isLt⟩

theorem leadingZeros_code {v : Nat} (hcode : ue v <+: bs) : leadingZeros bs = zeros v := by
  obtain ⟨rest, rfl⟩ := hcode
  rw [ue_append, leadingZeros_replicate]

theorem readsCodes_iff (h : r.Left bs) : ReadsCodes r bs ↔ Safe r.mNumBitsLeft bs := by
  constructor
  · intro hreads
    refine ⟨?_, ?_, (parseUEShifts_lt h).mp hreads.shifts⟩
    · rintro rfl
      obtain ⟨v, hcode, -⟩ := hreads.code h (by decide) (by decide)
      have hlength := congrArg List.length (List.prefix_nil.mp hcode)
      rw [ue, List.length_append, List.length_cons, List.length_nil] at hlength
      omega
    · intro hmany
      by_contra hnot
      rw [not_or, Nat.not_le, Nat.not_lt] at hnot
      obtain ⟨v, hcode, hv⟩ := hreads.code h hnot.1 hnot.2
      have hz := zeros_lt (w := 33) (v := v) (by omega)
      rw [leadingZeros_code hcode] at hmany
      omega
  · intro hsafe
    refine ⟨?_, ?_, fun fallback => ?_, (parseUEShifts_lt h).mpr hsafe.shifted⟩
    · rintro v rest hv rfl
      refine ⟨?_, fun fallback => ?_⟩
      · obtain ⟨_, r', hread, rfl, hrest⟩ := reads_parseUE hv r rest h
        exact ⟨r', hread, hrest⟩
      · obtain ⟨_, r', hread, rfl, hrest⟩ := reads_parseUEWithFallback hv fallback r rest h
        exact ⟨r', hread, hrest⟩
    · rintro v rest hv rfl
      have hnegates := negates_half (BitVec.ofNat 32 v)
      rw [BitVec.toNat_ofNat, Nat.mod_eq_of_lt (by omega)] at hnegates
      refine ⟨?_, fun fallback => ?_, hnegates⟩
      · obtain ⟨hlow, hhigh⟩ := signed_bounds (w := 31) hv
        have hreads := reads_parseSE hlow hhigh
        rw [se, codeNum_signed] at hreads
        obtain ⟨_, r', hread, rfl, hrest⟩ := hreads r rest h
        exact ⟨r', hread, hrest⟩
      · obtain ⟨_, r', hread, rfl, hrest⟩ := reads_parseSEWithFallback hv fallback r rest h
        exact ⟨r', hread, hrest⟩
    · exact parseUEWithFallback_ends h hsafe.left hsafe.counted fallback

/-- The number 3, and what is left of its byte. -/
theorem readsCodes_three : ReadsCodes { mData := [0x20] } (bytesBits [0x20]) := by
  have hzeros : leadingZeros (bytesBits [0x20]) = 2 := by decide
  refine (readsCodes_iff (left_mk [0x20])).mpr ⟨by decide, ?_, ?_⟩
  · intro hmany
    rw [hzeros] at hmany
    omega
  · intro hmany
    rw [hzeros] at hmany
    omega

/-- Where no bits are left the number is 0, whatever `fallback` is. -/
theorem not_readsCodes_nil : ¬ReadsCodes { mData := [] } [] := by
  intro hreads
  obtain ⟨value, r', hparse, hvalue⟩ := hreads.ends 1
  have hzero : parseUEWithFallback 1 { mData := [] } = some (0, { mData := [], mOverRead := true }) :=
    rfl
  rw [hzero] at hparse
  obtain ⟨rfl, -⟩ := Prod.mk.inj (Option.some.inj hparse)
  rcases hvalue with hone | ⟨v, hcode, -⟩
  · exact absurd hone (by decide)
  · have hlength := congrArg List.length (List.prefix_nil.mp hcode)
    rw [ue, List.length_append, List.length_cons, List.length_nil] at hlength
    omega

/-- Behind 63 zeros and a one a word is skipped whole, by a shift of 32. -/
example : 32 ∈ parseUEShifts { mData := [0, 0, 0, 0, 0, 0, 0, 1, 0, 0, 0, 0] } := by
  decide +kernel

end MediaFramework.Foundation
