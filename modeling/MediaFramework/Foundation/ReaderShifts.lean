import MediaFramework.Foundation.ABitReader

/-!
# Reads at the end of the data

What `getBitsGraceful` and `skipBits` do where the data end, and the amounts by which they shift. A shift
of a word by 32 is undefined.
-/

namespace MediaFramework.Foundation.ABitReader

open Bits

def getBitsWithFallback (r : ABitReader) (n : Nat) (fallback : BitVec 32) : ABitReader × BitVec 32 :=
  match r.getBitsGraceful n with
  | (r, some ret) => (r, ret)
  | (r, none) => (r, fallback)

/-- `skipBits`. Each pass of its loop takes 32 bits, so `n` of them are enough. -/
def skipBitsLoop : Nat → ABitReader → Nat → ABitReader × Bool
  | 0, r, _ => (r, true)
  | passes + 1, r, n =>
    if 32 < n then
      match r.getBitsGraceful 32 with
      | (r, none) => (r, false)
      | (r, some _) => skipBitsLoop passes r (n - 32)
    else if 0 < n then ((r.getBitsGraceful n).1, (r.getBitsGraceful n).2.isSome)
    else (r, true)

/-! ### Shifts -/

/-- The amounts of the shifts of `fillReservoir`, in order. -/
def fillShifts (r : ABitReader) : List Nat :=
  if r.mData = [] then []
  else
    let i := (r.mData.take 4).length
    List.replicate i 8 ++ [32 - 8 * i]

def refillShifts (r : ABitReader) : List Nat := if r.mNumBitsLeft = 0 then r.fillShifts else []

/-- Those of the loop of `getBitsGraceful`. -/
def getBitsShifts : Nat → ABitReader → Nat → List Nat
  | 0, _, _ => []
  | passes + 1, r, n =>
    if n = 0 then []
    else
      r.refillShifts ++
        match r.refill with
        | (_, false) => []
        | (r, true) =>
          let m := min n r.mNumBitsLeft
          m :: (32 - m) :: m :: getBitsShifts passes (r.take m) (n - m)

def gracefulShifts (r : ABitReader) (n : Nat) : List Nat :=
  if 32 < n then [] else getBitsShifts n r n

/-- Those of `skipBits`. -/
def skipShifts : Nat → ABitReader → Nat → List Nat
  | 0, _, _ => []
  | passes + 1, r, n =>
    if 32 < n then
      r.gracefulShifts 32 ++
        match r.getBitsGraceful 32 with
        | (_, none) => []
        | (r, some _) => skipShifts passes r (n - 32)
    else if 0 < n then r.gracefulShifts n
    else []

/-- A word is all in the reservoir, or it is the next to be. -/
def Aligned (r : ABitReader) : Prop := r.mNumBitsLeft = 32 ∨ r.mNumBitsLeft = 0 ∧ 4 ≤ r.mData.length

variable {r : ABitReader} {bs : List Bool} {n passes : Nat}

/-! ### The end of the data -/

theorem Left.nil (h : r.Left []) : r.mNumBitsLeft = 0 ∧ r.mData = [] := by
  have hlength := h.length
  rw [List.length_nil, numBitsLeft] at hlength
  exact ⟨by omega, List.length_eq_zero_iff.mp (by omega)⟩

theorem refill_cases (h : r.Left bs) : (bs = [] ∧ ∃ r', r.refill = (r', false) ∧ r'.Left []) ∨
    ∃ r', r.refill = (r', true) ∧ r'.Left bs ∧ 0 < r'.mNumBitsLeft ∧
      (r.mNumBitsLeft = 0 ∧ 0 < r.mData.length ∧ r'.mData = r.mData.drop 4 ∧
          r'.mNumBitsLeft = 8 * min 4 r.mData.length
        ∨ r' = r) := by
  by_cases hbs : bs = []
  · subst hbs
    obtain ⟨hleft, hdata⟩ := h.nil
    refine .inl ⟨rfl, { r with mOverRead := true }, ?_, h⟩
    rw [refill, if_pos hleft, fillReservoir, if_pos hdata]
  · obtain ⟨r', hrefill, hleft, hpos⟩ := h.refill hbs
    refine .inr ⟨r', hrefill, hleft, hpos, ?_⟩
    rw [refill] at hrefill
    split at hrefill
    · next hzero =>
      rw [fillReservoir] at hrefill
      split at hrefill
      · cases hrefill
      · next hdata =>
        obtain ⟨rfl, -⟩ := Prod.mk.inj hrefill
        exact .inl ⟨hzero, List.length_pos_iff.mpr hdata, rfl, by rw [List.length_take]⟩
    · obtain ⟨rfl, -⟩ := Prod.mk.inj hrefill
      exact .inr rfl

theorem getBitsLoop_zero (passes : Nat) (r : ABitReader) (result : BitVec 32) :
    getBitsLoop passes r 0 result = (r, some result) := by
  cases passes <;> rfl

/-- The words that have been taken from the data are whole but for the last one. -/
theorem getBitsLoop_drop (h : r.Left bs) (n : Nat) (result : BitVec 32) :
    ∃ w, (getBitsLoop passes r n result).1.mData = r.mData.drop (4 * w) := by
  induction passes generalizing r bs n result with
  | zero => exact ⟨0, rfl⟩
  | succ passes ih =>
    rw [getBitsLoop]
    split
    · exact ⟨0, rfl⟩
    · rcases refill_cases h with ⟨rfl, r', hrefill, hnil⟩ | ⟨r', hrefill, hleft, -, hcases⟩
      · rw [hrefill]
        exact ⟨0, by rw [h.nil.2]; exact hnil.nil.2⟩
      · rw [hrefill]
        dsimp only
        obtain ⟨w, hw⟩ := ih (hleft.take (Nat.min_le_right n r'.mNumBitsLeft)).2
          (n - min n r'.mNumBitsLeft)
          (result <<< min n r'.mNumBitsLeft ||| r'.mReservoir >>> (32 - min n r'.mNumBitsLeft))
        rw [hw]
        rcases hcases with ⟨-, -, hdata, -⟩ | rfl
        · refine ⟨w + 1, ?_⟩
          rw [take, hdata, List.drop_drop]
          congr 1
          omega
        · exact ⟨w, rfl⟩

theorem getBitsLoop_numBitsLeft (h : r.Left bs) (hpos : 0 < n) (hpasses : n ≤ passes)
    (result : BitVec 32) : (getBitsLoop passes r n result).1.mNumBitsLeft < 32 := by
  induction passes generalizing r bs n result with
  | zero => omega
  | succ passes ih =>
    rw [getBitsLoop, if_neg (by omega)]
    rcases refill_cases h with ⟨-, r', hrefill, hnil⟩ | ⟨r', hrefill, hleft, hsome, -⟩
    · rw [hrefill]
      show r'.mNumBitsLeft < 32
      rw [hnil.nil.1]
      decide
    · rw [hrefill]
      dsimp only
      have hfits := hleft.2
      by_cases hmore : 0 < n - min n r'.mNumBitsLeft
      · exact ih (hleft.take (Nat.min_le_right _ _)).2 hmore (by omega) _
      · rw [show n - min n r'.mNumBitsLeft = 0 by omega, getBitsLoop_zero]
        show r'.mNumBitsLeft - min n r'.mNumBitsLeft < 32
        omega

/-- The data end before the bits that are asked for. -/
theorem getBitsLoop_short (h : r.Left bs) (hshort : bs.length < n) (hpasses : n ≤ passes)
    (result : BitVec 32) : ∃ r', getBitsLoop passes r n result = (r', none) ∧ r'.Left [] := by
  induction passes generalizing r bs n result with
  | zero => omega
  | succ passes ih =>
    rw [getBitsLoop, if_neg (by omega)]
    rcases refill_cases h with ⟨-, r', hrefill, hnil⟩ | ⟨r', hrefill, hleft, hsome, -⟩
    · rw [hrefill]
      exact ⟨r', rfl, hnil⟩
    · rw [hrefill]
      have hfits : r'.mNumBitsLeft ≤ bs.length := by
        rw [hleft.length, numBitsLeft]
        omega
      refine ih (hleft.take (Nat.min_le_right _ _)).2 ?_ (by omega) _
      rw [List.length_drop]
      omega

theorem Left.getBitsGraceful {xs rest : List Bool} (h : r.Left (xs ++ rest)) (hfits : xs.length ≤ 32) :
    ∃ r', r.getBitsGraceful xs.length = (r', some (ofBits 32 xs)) ∧ r'.Left rest := by
  obtain ⟨r', hloop, hrest⟩ := h.getBitsLoop (Nat.le_refl _) rfl []
  rw [ofBits_nil, List.nil_append] at hloop
  exact ⟨r', by rw [ABitReader.getBitsGraceful, if_neg (by omega), hloop], hrest⟩

theorem Left.getBitsGraceful_short (h : r.Left bs) (hshort : bs.length < n) (hfits : n ≤ 32) :
    ∃ r', r.getBitsGraceful n = (r', none) ∧ r'.Left [] := by
  rw [ABitReader.getBitsGraceful, if_neg (by omega)]
  exact getBitsLoop_short h hshort (Nat.le_refl n) 0

/-- `r'` has taken words from the data of `r`, and it has read of the last one. -/
def Moved (r r' : ABitReader) : Prop :=
  r'.mNumBitsLeft < 32 ∧ ∃ w, r'.mData = r.mData.drop (4 * w)

theorem Left.moved (h : r.Left bs) (hpos : 0 < n) (hfits : n ≤ 32) :
    Moved r (r.getBitsGraceful n).1 := by
  rw [ABitReader.getBitsGraceful, if_neg (by omega)]
  exact ⟨getBitsLoop_numBitsLeft h hpos (Nat.le_refl n) 0, getBitsLoop_drop h n 0⟩

theorem Moved.trans {r₁ r₂ r₃ : ABitReader} (h : Moved r₁ r₂) (h' : Moved r₂ r₃) : Moved r₁ r₃ := by
  obtain ⟨-, w, hw⟩ := h
  obtain ⟨hleft, w', hw'⟩ := h'
  refine ⟨hleft, w + w', ?_⟩
  rw [hw', hw, List.drop_drop]
  congr 1
  omega

/-- Whole words have been read behind the first one. -/
theorem Moved.aligned {r' : ABitReader} {xs ys : List Bool} (hmoved : Moved r r')
    (h : r.Left (xs ++ ys)) (h' : r'.Left ys) :
    Aligned r' ↔
      r.mNumBitsLeft ≤ xs.length ∧ 32 ∣ xs.length - r.mNumBitsLeft ∧ 32 ≤ ys.length := by
  obtain ⟨hleft, w, hdata⟩ := hmoved
  have hall := h.length
  have hrest := h'.length
  have hwords := congrArg List.length hdata
  rw [List.length_append, numBitsLeft] at hall
  rw [numBitsLeft] at hrest
  rw [List.length_drop] at hwords
  rw [Aligned]
  constructor
  · rintro (hfull | ⟨hnone, hmore⟩)
    · omega
    · exact ⟨by omega, ⟨w, by omega⟩, by omega⟩
  · rintro ⟨hpast, ⟨w', hw'⟩, hmore⟩
    right
    omega

/-! ### Which shifts are defined -/

theorem fillShifts_lt : ∀ s ∈ r.fillShifts, s < 32 := by
  intro s hs
  rw [fillShifts] at hs
  split at hs
  · cases hs
  · next hdata =>
    have hpos := List.length_pos_iff.mpr hdata
    have htake : (r.mData.take 4).length = min 4 r.mData.length := List.length_take
    rcases List.mem_append.mp hs with hloop | hlast
    · rw [List.eq_of_mem_replicate hloop]
      decide
    · rw [List.mem_singleton.mp hlast]
      omega

theorem refillShifts_lt : ∀ s ∈ r.refillShifts, s < 32 := by
  rw [refillShifts]
  split
  · exact fillShifts_lt
  · exact fun s hs => by cases hs

/-- Less than a word is read. -/
theorem getBitsShifts_lt (h : r.Left bs) (hn : n < 32) : ∀ s ∈ getBitsShifts passes r n, s < 32 := by
  induction passes generalizing r bs n with
  | zero => exact fun s hs => by cases hs
  | succ passes ih =>
    intro s hs
    rw [getBitsShifts] at hs
    split at hs
    · cases hs
    · rcases List.mem_append.mp hs with hrefill | hpass
      · exact refillShifts_lt s hrefill
      · rcases refill_cases h with ⟨-, r', hrefill, hnil⟩ | ⟨r', hrefill, hleft, hsome, -⟩
        · rw [hrefill] at hpass
          cases hpass
        · rw [hrefill] at hpass
          dsimp only at hpass
          rcases List.mem_cons.mp hpass with rfl | hpass
          · omega
          rcases List.mem_cons.mp hpass with rfl | hpass
          · omega
          rcases List.mem_cons.mp hpass with rfl | hpass
          · omega
          · exact ih (hleft.take (Nat.min_le_right _ _)).2 (by omega) s hpass

theorem gracefulShifts_lt (h : r.Left bs) (hn : n < 32) : ∀ s ∈ r.gracefulShifts n, s < 32 := by
  rw [gracefulShifts, if_neg (by omega)]
  exact getBitsShifts_lt h hn

/-- A whole word is read. -/
theorem gracefulShifts_word (h : r.Left bs) : (∀ s ∈ r.gracefulShifts 32, s < 32) ↔ ¬Aligned r := by
  rw [gracefulShifts, if_neg (by decide), getBitsShifts, if_neg (by decide)]
  rcases refill_cases h with ⟨rfl, r', hrefill, -⟩ | ⟨r', hrefill, hleft, hsome, hcases⟩
  · rw [hrefill, List.append_nil]
    refine iff_of_true refillShifts_lt ?_
    rintro (hfull | ⟨-, hmore⟩)
    · rw [h.nil.1] at hfull
      cases hfull
    · rw [h.nil.2] at hmore
      cases hmore
  · have hreservoir : Aligned r ↔ r'.mNumBitsLeft = 32 := by
      rw [Aligned]
      rcases hcases with ⟨hzero, -, -, hfilled⟩ | rfl
      · omega
      · omega
    have hfits := hleft.2
    rw [hrefill, hreservoir]
    dsimp only
    constructor
    · intro hall hfull
      have hm := hall (min 32 r'.mNumBitsLeft) (List.mem_append_right _ List.mem_cons_self)
      omega
    · intro hpart s hs
      rcases List.mem_append.mp hs with hrefill | hpass
      · exact refillShifts_lt s hrefill
      rcases List.mem_cons.mp hpass with rfl | hpass
      · omega
      rcases List.mem_cons.mp hpass with rfl | hpass
      · omega
      rcases List.mem_cons.mp hpass with rfl | hpass
      · omega
      · exact getBitsShifts_lt (hleft.take (Nat.min_le_right _ _)).2 (by omega) s hpass

/-- A word behind the others begins where they do. -/
theorem not_aligned_word (h : r.Left bs) (hnot : ¬Aligned r) {r' : ABitReader} {value : BitVec 32}
    (hread : r.getBitsGraceful 32 = (r', some value)) : ∃ rest, r'.Left rest ∧ ¬Aligned r' := by
  by_cases hshort : bs.length < 32
  · obtain ⟨r₁, hnone, -⟩ := h.getBitsGraceful_short hshort (Nat.le_refl 32)
    rw [hnone] at hread
    cases hread
  · have htake : (bs.take 32).length = 32 := by
      rw [List.length_take]
      omega
    rw [← List.take_append_drop 32 bs] at h
    obtain ⟨r₁, hsome, hrest⟩ := h.getBitsGraceful (by omega)
    have hmoved := h.moved (n := 32) (by decide) (by decide)
    rw [htake, hread] at hsome
    obtain ⟨rfl, -⟩ := Prod.mk.inj hsome
    rw [hread] at hmoved
    refine ⟨_, hrest, ?_⟩
    rw [hmoved.aligned h hrest, htake]
    rintro ⟨hle, hdvd, hmore⟩
    have hall := h.length
    rw [List.length_append, htake, numBitsLeft] at hall
    apply hnot
    rw [Aligned]
    omega

theorem skipShifts_part (h : r.Left bs) (hn : n < 32) : ∀ s ∈ skipShifts passes r n, s < 32 := by
  cases passes with
  | zero => exact fun s hs => by cases hs
  | succ passes =>
    rw [skipShifts, if_neg (by omega)]
    split
    · exact gracefulShifts_lt h hn
    · exact fun s hs => by cases hs

theorem skipShifts_lt (h : r.Left bs) (hn : 32 ≤ n) (hpasses : n ≤ passes) :
    (∀ s ∈ skipShifts passes r n, s < 32) ↔ ¬Aligned r := by
  induction passes generalizing r bs n with
  | zero => omega
  | succ passes ih =>
    rw [skipShifts]
    split
    · rw [← gracefulShifts_word h]
      refine ⟨fun hall s hs => hall s (List.mem_append_left _ hs), fun hall s hs => ?_⟩
      rcases List.mem_append.mp hs with hfirst | hmore
      · exact hall s hfirst
      split at hmore
      · cases hmore
      · next r' value hread =>
        obtain ⟨rest, hrest, hnot⟩ := not_aligned_word h ((gracefulShifts_word h).mp hall) hread
        by_cases hlast : n - 32 < 32
        · exact skipShifts_part hrest hlast s hmore
        · exact (ih hrest (by omega) (by omega)).mpr hnot s hmore
    · rw [if_pos (by omega), show n = 32 by omega]
      exact gracefulShifts_word h

end MediaFramework.Foundation.ABitReader
