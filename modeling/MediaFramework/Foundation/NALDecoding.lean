import MediaFramework.Foundation.NALReservoir

/-!
# What the NAL unit reader decodes

The reader hands out the bits of the payload in order, unless a run of zeros is so long that its
counter overflows. It shifts its reservoir by its whole width in two situations: when 32 bits
are read at once from a full reservoir, and when a read past the end finds nothing but an
emulation prevention byte to refill from.
-/

namespace MediaFramework.Foundation

open Bits

namespace NALBitReader

variable {data : List (BitVec 8)} {r r' : NALBitReader} {bs : List Bool} {zeros n : Nat}

/-! ### Reading bits -/

/-- What remains after an attempt to read `n` bits. A failed one uses up everything. -/
def restAfter (bs : List Bool) (n : Nat) : List Bool := if n ≤ bs.length then bs.drop n else []

/-- The reader is now `r'`, after an attempt to read `n` of the bits `bs`. -/
structure After (data : List (BitVec 8)) (r : NALBitReader) (bs : List Bool) (n : Nat)
    (r' : NALBitReader) : Prop where
  reading : ∃ zeros, Reading data r' (restAfter bs n) zeros
  small : r'.mNumBitsLeft < 32
  shifts : r'.ShiftsBelow ↔ r.ShiftsBelow ∧ ¬ShiftsOut counted data bs.length n

theorem getBitsLoop_zero (r : NALBitReader) (result : BitVec 32) :
    r.getBitsLoop 0 result = (r, some result) := by
  rw [getBitsLoop, dif_pos rfl]

theorem getBitsLoop_failed {result : BitVec 32} (hn : n ≠ 0) (h : r.refill = (r', false)) :
    r.getBitsLoop n result = (r', none) := by
  rw [getBitsLoop, dif_neg hn]
  split
  · next h' =>
    rw [h] at h'
    cases h'
    rfl
  · next h' =>
    rw [h] at h'
    cases h'

theorem getBitsLoop_refilled {result : BitVec 32} (hn : n ≠ 0) (h : r.refill = (r', true)) :
    r.getBitsLoop n result =
      (r'.take (min n r'.mNumBitsLeft)).getBitsLoop (n - min n r'.mNumBitsLeft)
        ((result <<< min n r'.mNumBitsLeft) |||
          (r'.mReservoir >>> (32 - min n r'.mNumBitsLeft))) := by
  rw [getBitsLoop, dif_neg hn]
  split
  · next h' =>
    rw [h] at h'
    cases h'
  · next h' =>
    rw [h] at h'
    cases h'
    rfl

theorem restAfter_drop {m : Nat} (hmn : m ≤ n) (hm : m ≤ bs.length) :
    restAfter (bs.drop m) (n - m) = restAfter bs n := by
  rw [restAfter, restAfter, List.length_drop, List.drop_drop]
  by_cases hn : n ≤ bs.length
  · rw [if_pos hn, if_pos (by omega)]
    congr 1
    omega
  · rw [if_neg hn, if_neg (by omega)]

theorem shiftsBelow_take {m : Nat} (hm : 0 < m) : (r.take m).ShiftsBelow ↔ r.ShiftsBelow ∧ m < 32 := by
  rw [ShiftsBelow, NALBitReader.take]
  constructor
  · intro h
    exact ⟨fun s hs => h s (List.mem_append_left _ hs), h m (by simp)⟩
  · rintro ⟨h, hlt⟩ s hs
    obtain hs | hs := List.mem_append.mp hs
    · exact h s hs
    · simp only [List.mem_cons, List.not_mem_nil, or_false] at hs
      omega

/-- The part of a read that takes `m` bits of the reservoir, and the rest of it. -/
theorem shiftsOut_split {rem m left : Nat} (hn : n ≤ 32) (hm : m = min n left) (hpos : 0 < m)
    (hleft : left ≤ 32) (hrem : left ≤ rem)
    (hfull : left = 32 ↔ 32 ≤ rem ∧ 32 ∣ numBits counted data - rem) :
    ¬ShiftsOut counted data rem n ↔ m < 32 ∧ ¬ShiftsOut counted data (rem - m) (n - m) := by
  have hlast : rem < n ↔ rem - m < n - m := by omega
  have hrest : ¬32 ≤ n - m := by omega
  have hout : 32 ≤ n ∧ 32 ≤ rem ∧ 32 ∣ numBits counted data - rem ↔ ¬m < 32 := by
    rw [← hfull]
    omega
  rw [ShiftsOut, ShiftsOut, hout, ← hlast]
  simp only [hrest, false_and, false_or, not_or, not_not]

/-- Nothing can be read without bits and data. -/
theorem Reading.getBitsLoop_exhausted (h : Reading data r [] zeros) (hleft : r.mNumBitsLeft = 0)
    (hdata : r.mData = []) (hn : n ≠ 0) (result : BitVec 32) :
    After data r [] n (r.getBitsLoop n result).1 ∧ (r.getBitsLoop n result).2 = none := by
  have hrefill : r.refill = ({ r with mOverRead := true }, false) := by
    rw [NALBitReader.refill, if_pos hleft, NALBitReader.fillReservoir, if_pos hdata]
  rw [getBitsLoop_failed hn hrefill]
  refine ⟨⟨⟨zeros, ?_⟩, ?_, ?_⟩, rfl⟩
  · have hrest : restAfter [] n = [] := by rw [restAfter, List.drop_nil, ite_self]
    rw [hrest]
    exact ⟨h.numZeros, h.bits, h.fits, h.within, h.aligned, h.ends, h.drained⟩
  · show r.mNumBitsLeft < 32
    omega
  · show r.ShiftsBelow ↔ _
    constructor
    · intro hbelow
      refine ⟨hbelow, ?_⟩
      rintro (⟨-, hlong, -⟩ | ⟨hends, hdvd, -⟩)
      · cases hlong
      · exact h.drained hdata hends hdvd hbelow
    · exact And.left

theorem getBitsLoop_spec (h : Reading data r bs zeros) (hsmall : r.mNumBitsLeft < 32) (hn : n ≤ 32)
    (acc : List Bool) :
    After data r bs n (r.getBitsLoop n (ofBits 32 acc)).1 ∧
      (r.getBitsLoop n (ofBits 32 acc)).2 =
        if n ≤ bs.length then some (ofBits 32 (acc ++ bs.take n)) else none := by
  induction n using Nat.strongRecOn generalizing r bs zeros acc with
  | ind n ih =>
  by_cases hzero : n = 0
  · subst hzero
    rw [getBitsLoop_zero, if_pos (Nat.zero_le _), List.take_zero, List.append_nil]
    refine ⟨⟨⟨zeros, h⟩, hsmall, ?_⟩, rfl⟩
    simp [ShiftsOut]
  have href := h.refill hsmall
  generalize hr : r.refill = refilled at href
  obtain ⟨r', ok⟩ := refilled
  dsimp only at href
  cases href with
  | failed hbs hdata hreading hleft hshifts =>
    subst hbs
    have hleft : r.mNumBitsLeft = 0 := by
      have hlen := h.length
      rw [List.length_nil] at hlen
      omega
    rw [if_neg (by simpa using hzero)]
    exact h.getBitsLoop_exhausted hleft hdata hzero _
  | some hreading hleft hfull hshifts =>
    have hlen := hreading.length
    have hfits := hreading.fits
    rw [getBitsLoop_refilled hzero hr]
    generalize hm : min n r'.mNumBitsLeft = m
    obtain ⟨htake, hfront⟩ := hreading.take (m := m) (by omega)
    rw [← ofBits_append_topBits (by omega), hfront]
    obtain ⟨⟨hrest, hsmall', hbelow⟩, hout⟩ := ih (n - m) (by omega) htake
      (by show r'.mNumBitsLeft - m < 32; omega) (by omega) (acc ++ bs.take m)
    rw [restAfter_drop (by omega) (by omega)] at hrest
    refine ⟨⟨hrest, hsmall', ?_⟩, ?_⟩
    · rw [hbelow, shiftsBelow_take (by omega), hshifts, List.length_drop,
        shiftsOut_split hn hm.symm (by omega) hfits (by omega) hfull, and_assoc]
    · rw [hout, List.length_drop, List.append_assoc, ← List.take_add]
      have hsum : m + (n - m) = n := by omega
      have hle : n - m ≤ bs.length - m ↔ n ≤ bs.length := by omega
      simp only [hsum, hle]
  | empty hbs hdata hreading hleft hends hdvd hshifts =>
    subst hbs
    rw [getBitsLoop_refilled hzero hr, hleft, Nat.min_zero, Nat.sub_zero]
    obtain ⟨htake, -⟩ := hreading.take (Nat.zero_le _)
    rw [List.drop_nil] at htake
    obtain ⟨⟨hrest, hsmall', hbelow⟩, hout⟩ :=
      htake.getBitsLoop_exhausted (by show r'.mNumBitsLeft - 0 = 0; omega) hdata hzero _
    refine ⟨⟨hrest, hsmall', ?_⟩, ?_⟩
    · have hout : ShiftsOut counted data ([] : List Bool).length n :=
        .inr ⟨hends, hdvd, Nat.pos_of_ne_zero hzero⟩
      rw [hbelow]
      constructor
      · exact fun h => absurd hout h.2
      · exact fun h => absurd hout h.2
    · rw [hout, if_neg (by simpa using hzero)]

theorem getBitsGraceful_spec (h : Reading data r bs zeros) (hsmall : r.mNumBitsLeft < 32)
    (hn : n ≤ 32) :
    After data r bs n (r.getBitsGraceful n).1 ∧
      (r.getBitsGraceful n).2 = if n ≤ bs.length then some (ofBits 32 (bs.take n)) else none := by
  have hspec := getBitsLoop_spec h hsmall hn []
  rw [ofBits_nil, List.nil_append] at hspec
  rw [getBitsGraceful, if_neg (by omega)]
  exact hspec

/-- Skipping more than 32 bits is reading 32 and skipping the rest. -/
theorem shiftsOut_skip {enough : Nat → Bool} {rem : Nat} (hn : 32 < n) (hrem : 32 ≤ rem)
    (hle : rem ≤ numBits enough data) :
    ShiftsOut enough data rem n ↔
      ShiftsOut enough data rem 32 ∨ ShiftsOut enough data (rem - 32) (n - 32) := by
  have hdvd : 32 ∣ numBits enough data - (rem - 32) ↔ 32 ∣ numBits enough data - rem := by omega
  have hlast : rem - 32 < n - 32 ↔ rem < n := by omega
  have hfirst : ¬rem < 32 := by omega
  have hlong : 32 ≤ n := by omega
  rw [ShiftsOut, ShiftsOut, ShiftsOut, hdvd, hlast]
  simp only [hfirst, hrem, hlong, and_false, or_false, true_and, Nat.le_refl]
  constructor
  · rintro (haligned | hends)
    · exact .inl haligned
    · exact .inr (.inr hends)
  · rintro (haligned | ⟨-, -, haligned⟩ | hends)
    · exact .inl haligned
    · exact .inl haligned
    · exact .inr hends

theorem skipBits_spec (h : Reading data r bs zeros) (hsmall : r.mNumBitsLeft < 32) :
    After data r bs n (r.skipBits n).1 ∧ (r.skipBits n).2 = decide (n ≤ bs.length) := by
  induction n using Nat.strongRecOn generalizing r bs zeros with
  | ind n ih =>
  rw [skipBits]
  by_cases hlong : 32 < n
  · rw [if_pos hlong]
    obtain ⟨⟨⟨zeros', hrest⟩, hsmall', hbelow⟩, hout⟩ :=
      getBitsGraceful_spec h hsmall (Nat.le_refl 32)
    generalize r.getBitsGraceful 32 = got at hrest hsmall' hbelow hout
    obtain ⟨r', out⟩ := got
    dsimp only at hrest hsmall' hbelow hout ⊢
    by_cases hlen : 32 ≤ bs.length
    · rw [if_pos hlen] at hout
      rw [restAfter, if_pos hlen] at hrest
      subst hout
      obtain ⟨⟨hrest', hsmall'', hbelow'⟩, hok⟩ := ih (n - 32) (by omega) hrest hsmall'
      rw [restAfter_drop (by omega) hlen] at hrest'
      refine ⟨⟨hrest', hsmall'', ?_⟩, ?_⟩
      · show (r'.skipBits (n - 32)).1.ShiftsBelow ↔ _
        rw [hbelow', hbelow, List.length_drop, shiftsOut_skip hlong hlen h.within, not_or, and_assoc]
      · show (r'.skipBits (n - 32)).2 = _
        rw [hok, List.length_drop]
        have hle : n - 32 ≤ bs.length - 32 ↔ n ≤ bs.length := by omega
        simp only [hle]
    · rw [if_neg hlen] at hout
      subst hout
      have hfail : ¬n ≤ bs.length := by omega
      rw [restAfter, if_neg hlen] at hrest
      refine ⟨⟨⟨zeros', ?_⟩, hsmall', ?_⟩, by simp [hfail]⟩
      · rw [restAfter, if_neg hfail]
        exact hrest
      · have hsame : ShiftsOut counted data bs.length 32 ↔ ShiftsOut counted data bs.length n := by
          have h1 : bs.length < 32 := by omega
          have h2 : bs.length < n := by omega
          simp only [ShiftsOut, hlen, h1, h2, false_and, and_false]
        rw [← hsame]
        exact hbelow
  · rw [if_neg hlong]
    by_cases hpos : 0 < n
    · rw [if_pos hpos]
      obtain ⟨hafter, hout⟩ := getBitsGraceful_spec h hsmall (n := n) (by omega)
      refine ⟨hafter, ?_⟩
      show (r.getBitsGraceful n).2.isSome = _
      rw [hout]
      split
      · next hle => simp [hle]
      · next hle => simp [hle]
    · obtain rfl : n = 0 := by omega
      rw [if_neg hpos]
      refine ⟨⟨⟨zeros, h⟩, hsmall, ?_⟩, by simp⟩
      simp [ShiftsOut]

/-! ### Looking ahead -/

theorem atLeastLoop_spec (zeros : Nat) (data : List (BitVec 8)) (numBitsRemaining : Int) :
    atLeastLoop data (BitVec.ofNat 32 zeros) numBitsRemaining ≤ 0 ↔
      numBitsRemaining ≤ 8 * (strip counted zeros data).length := by
  induction data generalizing zeros numBitsRemaining with
  | nil => simp [atLeastLoop, strip]
  | cons byte data ih =>
    rw [atLeastLoop, strip]
    by_cases hpos : 0 < numBitsRemaining
    · rw [if_pos hpos, countZeros_ofNat, ih]
      by_cases hskip : counted zeros ∧ byte = 3
      · rw [if_pos hskip, if_pos ((isEmulationPreventionByte_ofNat _ _).mpr hskip)]
      · rw [if_neg hskip, if_neg ((isEmulationPreventionByte_ofNat _ _).not.mpr hskip),
          List.length_cons]
        omega
    · rw [if_neg hpos]
      omega

theorem atLeastNumBitsLeft_spec (h : Reading data r bs zeros) (n : Nat) :
    r.atLeastNumBitsLeft n = decide (n ≤ bs.length) := by
  have hlen := h.length
  have hraw := length_strip_le_length counted zeros r.mData
  rw [atLeastNumBitsLeft, numBitsLeft]
  split
  · have hfew : ¬n ≤ bs.length := by omega
    simp [hfew]
  · rw [h.numZeros, decide_eq_decide, atLeastLoop_spec]
    omega

/-! ### Sequences of calls -/

/-- The bits a call asks to be taken. -/
def Call.numBits : Call → Nat
  | .getBitsGraceful n => if n ≤ 32 then n else 0
  | .getBitsWithFallback n _ => if n ≤ 32 then n else 0
  | .skipBits n => n
  | .atLeastNumBitsLeft _ => 0

/-- The reply to a call when `bs` are to go: a read gives the next bits if there are enough. -/
def expectedReply (bs : List Bool) : Call → Reply
  | .getBitsGraceful n =>
    .bits (if n ≤ 32 ∧ n ≤ bs.length then some (ofBits 32 (bs.take n)) else none)
  | .getBitsWithFallback n fallback =>
    .value (if n ≤ 32 ∧ n ≤ bs.length then ofBits 32 (bs.take n) else fallback)
  | .skipBits n => .flag (n ≤ bs.length)
  | .atLeastNumBitsLeft n => .flag (n ≤ bs.length)

def expectedReplies (bs : List Bool) : List Call → List Reply
  | [] => []
  | call :: calls => expectedReply bs call :: expectedReplies (restAfter bs call.numBits) calls

/-- No call of the sequence takes all of a full reservoir, or reads past an emulation prevention
byte at a multiple of 32 bits. -/
def Fits (enough : Nat → Bool) (data : List (BitVec 8)) (bs : List Bool) : List Call → Prop
  | [] => True
  | call :: calls =>
    ¬ShiftsOut enough data bs.length call.numBits ∧
      Fits enough data (restAfter bs call.numBits) calls

/-- The calls are answered from the payload, without a shift by 32 bits or more. -/
def Decodes (data : List (BitVec 8)) (calls : List Call) : Prop :=
  (run { mData := data } calls).2 = expectedReplies (bytesBits (rbsp data)) calls ∧
    (run { mData := data } calls).1.ShiftsBelow

theorem After.zero (h : Reading data r bs zeros) (hsmall : r.mNumBitsLeft < 32) :
    After data r bs 0 r := by
  refine ⟨⟨zeros, h⟩, hsmall, ?_⟩
  simp [ShiftsOut]

theorem getBits_step (h : Reading data r bs zeros) (hsmall : r.mNumBitsLeft < 32) (n : Nat) :
    After data r bs (if n ≤ 32 then n else 0) (r.getBitsGraceful n).1 ∧
      (r.getBitsGraceful n).2 =
        if n ≤ 32 ∧ n ≤ bs.length then some (ofBits 32 (bs.take n)) else none := by
  by_cases hn : n ≤ 32
  · rw [if_pos hn]
    simp only [hn, true_and]
    exact getBitsGraceful_spec h hsmall hn
  · rw [if_neg hn, getBitsGraceful, if_pos (by omega), if_neg (fun hboth => hn hboth.1)]
    exact ⟨After.zero h hsmall, rfl⟩

theorem step_spec (h : Reading data r bs zeros) (hsmall : r.mNumBitsLeft < 32) (call : Call) :
    After data r bs call.numBits (r.step call).1 ∧ (r.step call).2 = expectedReply bs call := by
  cases call with
  | getBitsGraceful n =>
    obtain ⟨hafter, hout⟩ := getBits_step h hsmall n
    exact ⟨hafter, congrArg Reply.bits hout⟩
  | getBitsWithFallback n fallback =>
    obtain ⟨hafter, hout⟩ := getBits_step h hsmall n
    refine ⟨hafter, congrArg Reply.value ?_⟩
    show (r.getBitsGraceful n).2.getD fallback = _
    rw [hout]
    split <;> rfl
  | skipBits n =>
    obtain ⟨hafter, hok⟩ := skipBits_spec h hsmall (n := n)
    exact ⟨hafter, congrArg Reply.flag hok⟩
  | atLeastNumBitsLeft n =>
    exact ⟨After.zero h hsmall, congrArg Reply.flag (atLeastNumBitsLeft_spec h n)⟩

theorem run_spec (h : Reading data r bs zeros) (hsmall : r.mNumBitsLeft < 32) (calls : List Call) :
    (r.run calls).2 = expectedReplies bs calls ∧
      ((r.run calls).1.ShiftsBelow ↔ r.ShiftsBelow ∧ Fits counted data bs calls) := by
  induction calls generalizing r bs zeros with
  | nil => exact ⟨rfl, (and_iff_left trivial).symm⟩
  | cons call calls ih =>
    obtain ⟨⟨⟨zeros', hrest⟩, hsmall', hbelow⟩, hreply⟩ := step_spec h hsmall call
    obtain ⟨hreplies, hshifts⟩ := ih hrest hsmall'
    constructor
    · show (r.step call).2 :: ((r.step call).1.run calls).2 = _
      rw [hreply, hreplies, expectedReplies]
    · show ((r.step call).1.run calls).1.ShiftsBelow ↔ _
      rw [hshifts, hbelow, Fits, and_assoc]

theorem numBits_counted (h : CountsZeros 0 data) : numBits counted data = numBits twoZeros data := by
  rw [numBits, numBits, strip_counted h]

theorem fits_counted (h : CountsZeros 0 data) (bs : List Bool) (calls : List Call) :
    Fits counted data bs calls ↔ Fits twoZeros data bs calls := by
  induction calls generalizing bs with
  | nil => exact Iff.rfl
  | cons call calls ih =>
    rw [Fits, Fits, ih, ShiftsOut, ShiftsOut, numBits_counted h, endsStripped_counted h]

/-- As long as the counter of zeros does not overflow, any calls are answered right, and the
reservoir is never shifted by its width unless a call takes all of it at once or reads past an
emulation prevention byte. With an overflow before a `0x03` some call is answered wrong. -/
theorem nal_reader_decodes_iff (data : List (BitVec 8)) :
    (CountsZeros 0 data → ∀ calls,
      Decodes data calls ↔ Fits twoZeros data (bytesBits (rbsp data)) calls) ∧
    (¬CountsZeros 0 data → ∃ calls,
      Fits twoZeros data (bytesBits (rbsp data)) calls ∧ ¬Decodes data calls) := by
  have hfresh := Reading.fresh data
  constructor
  · intro hcounts calls
    obtain ⟨hreplies, hshifts⟩ := run_spec hfresh (Nat.zero_lt_succ 31) calls
    rw [strip_counted hcounts] at hreplies hshifts
    rw [Decodes, hshifts, fits_counted hcounts]
    constructor
    · exact fun h => h.2.2
    · exact fun h => ⟨hreplies, fun _ hs => absurd hs List.not_mem_nil, h⟩
  · intro hcounts
    -- the byte that was missed is there for one who asks
    refine ⟨[.atLeastNumBitsLeft (8 * (strip counted 0 data).length)], ?_, ?_⟩
    · exact ⟨by simp [ShiftsOut, Call.numBits], trivial⟩
    · rintro ⟨hreplies, -⟩
      have hlt := length_strip_lt hcounts
      have hreply := (run_spec hfresh (Nat.zero_lt_succ 31)
        [.atLeastNumBitsLeft (8 * (strip counted 0 data).length)]).1
      rw [hreply] at hreplies
      simp only [expectedReplies, expectedReply, length_bytesBits, rbsp, List.cons.injEq,
        Reply.flag.injEq, and_true, decide_eq_decide] at hreplies
      omega

instance (r : NALBitReader) : Decidable r.ShiftsBelow :=
  inferInstanceAs (Decidable (∀ s ∈ r.shifts, s < 32))

/-- Four bytes at once; and a read past the end of a buffer with a trailing emulation prevention
byte. -/
theorem nal_reader_shifts_out :
    ¬Decodes [1, 2, 3, 4] [.getBitsGraceful 32] ∧
      ¬Decodes [1, 2, 0, 0, 3] [.getBitsGraceful 12, .skipBits 20, .getBitsWithFallback 1 0] := by
  constructor
  · rintro ⟨-, h⟩
    exact absurd h (by decide +kernel)
  · rintro ⟨-, h⟩
    exact absurd h (by decide +kernel)

end NALBitReader

end MediaFramework.Foundation
