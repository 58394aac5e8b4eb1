import MediaFramework.Audio.StaticTrack

/-!
# The loop and position sequence counters

The client counts its loop and position updates in two 32-bit counters that overtake each
other (`incrementSequence`). The sign of their difference tells which was updated last,
and fewer than `INT32_MAX` updates never bring an updated counter back to where it was.
-/

namespace MediaFramework.Audio

/-- `incrementSequence` on unbounded values. -/
def leap (X Y : Nat) : Nat := if Y ≤ X ∧ X < Y + INT32_MAX then X + 1 else Y + 1

theorem toInt_sub_of_near {X Y : Nat} (base : BitVec 32) (h₁ : X < Y + 2^31) (h₂ : Y ≤ X + 2^31) :
    ((base + BitVec.ofNat 32 X) - (base + BitVec.ofNat 32 Y)).toInt = (X : Int) - Y := by
  have hsub : (base + BitVec.ofNat 32 X) - (base + BitVec.ofNat 32 Y) =
      BitVec.ofNat 32 X - BitVec.ofNat 32 Y := by
    rw [BitVec.sub_eq_iff_eq_add, BitVec.add_comm base (BitVec.ofNat 32 Y), ← BitVec.add_assoc,
      BitVec.sub_add_cancel, BitVec.add_comm]
  rw [hsub, BitVec.toInt_sub, BitVec.toInt_ofNat', BitVec.toInt_ofNat', Int.sub_bmod_bmod,
    Int.bmod_sub_bmod, Int.bmod_eq_of_le (by omega) (by omega)]

theorem incrementSequence_offset {X Y : Nat} (base : BitVec 32) (h₁ : X ≤ Y + 2^31)
    (h₂ : Y ≤ X + 2^31) :
    incrementSequence (base + BitVec.ofNat 32 X) (base + BitVec.ofNat 32 Y) =
      base + BitVec.ofNat 32 (leap X Y) := by
  have hsucc : ∀ n, base + BitVec.ofNat 32 n + 1 = base + BitVec.ofNat 32 (n + 1) := by
    intro n
    rw [BitVec.ofNat_add, ← BitVec.add_assoc]
    rfl
  rcases Nat.lt_or_ge X (Y + 2^31) with hlt | hge
  · simp only [incrementSequence, toInt_sub_of_near base hlt h₂, leap, hsucc]
    by_cases hc : Y ≤ X ∧ X < Y + INT32_MAX
    · rw [if_pos hc, if_pos (by omega)]
    · rw [if_neg hc, if_neg (by omega)]
  · -- half way round the signed difference is negative in both directions
    obtain rfl : X = Y + 2^31 := by omega
    have hneg : ((base + BitVec.ofNat 32 (Y + 2^31)) - (base + BitVec.ofNat 32 Y)).toInt = -2^31 := by
      have hsub : (base + BitVec.ofNat 32 (Y + 2^31)) - (base + BitVec.ofNat 32 Y) =
          BitVec.ofNat 32 (2^31) := by
        rw [BitVec.sub_eq_iff_eq_add, BitVec.ofNat_add, BitVec.add_comm (BitVec.ofNat 32 Y),
          BitVec.add_comm base, BitVec.add_assoc, BitVec.add_comm base]
      rw [hsub]
      decide
    simp only [incrementSequence, hneg, leap, hsucc]
    rw [if_neg (by omega), if_neg (by rw [INT32_MAX]; omega)]

/-- The counter just incremented is ahead of the other one. -/
theorem incrementSequence_ahead (self other : BitVec 32) :
    0 < (incrementSequence self other - other).toInt ∧
      (other - incrementSequence self other).toInt < 0 := by
  have hone : (1 : BitVec 32).toInt = 1 := by decide
  have hpos : 0 < (incrementSequence self other - other).toInt := by
    simp only [incrementSequence]
    split
    · next hc =>
      have hsub : self + 1 - other = self - other + 1 := by
        rw [BitVec.sub_eq_iff_eq_add, BitVec.add_assoc, BitVec.add_comm 1, ← BitVec.add_assoc,
          BitVec.sub_add_cancel]
      rw [INT32_MAX] at hc
      rw [hsub, BitVec.toInt_add, hone, Int.bmod_eq_of_le (by omega) (by omega)]
      omega
    · have hsub : other + 1 - other = 1 := by
        rw [BitVec.sub_eq_iff_eq_add, BitVec.add_comm]
      rw [hsub]
      decide
  have hlt := BitVec.toInt_lt (x := incrementSequence self other - other)
  have hneg : other - incrementSequence self other = -(incrementSequence self other - other) :=
    by rw [BitVec.neg_sub, BitVec.add_comm, ← BitVec.sub_eq_add_neg]
  refine ⟨hpos, ?_⟩
  rw [hneg, BitVec.toInt_neg, Int.bmod_eq_of_le (by omega) (by omega)]
  omega

/-! ### Runs of updates -/

/-- The counters after updates of the first (`true`) and of the second (`false`), the latest
at the head of the list. -/
def leaps : List Bool → BitVec 32 × BitVec 32 → BitVec 32 × BitVec 32
  | [], c => c
  | true :: bs, c => (incrementSequence (leaps bs c).1 (leaps bs c).2, (leaps bs c).2)
  | false :: bs, c => ((leaps bs c).1, incrementSequence (leaps bs c).2 (leaps bs c).1)

theorem leaps_swap (bs : List Bool) (c : BitVec 32 × BitVec 32) :
    leaps (bs.map not) c.swap = (leaps bs c).swap := by
  induction bs with
  | nil => rfl
  | cons b bs ih =>
    cases b with
    | true => simp only [List.map_cons, Bool.not_true, leaps, ih, Prod.fst_swap, Prod.snd_swap,
        Prod.swap_prod_mk]
    | false => simp only [List.map_cons, Bool.not_false, leaps, ih, Prod.fst_swap, Prod.snd_swap,
        Prod.swap_prod_mk]

/-- Where two counters that start `d` apart can be after `j` updates, as offsets from the one
that is behind at the start. `first` and `second` say which have been updated. -/
inductive Leapt (d j : Nat) : (first second : Bool) → (X Y : Nat) → Prop
  /-- Only the counter in front has moved, without a jump back. -/
  | lead {first X} (hf : first = true ↔ 0 < j) (hX : X = d + j) (hj : X ≤ INT32_MAX ∨ j = 0) :
    Leapt d j first false X 0
  /-- Only the counter in front has moved, and it has jumped back. -/
  | back {X} (hpos : 1 ≤ X) (hX : X + INT32_MAX ≤ d + j) : Leapt d j true false X 0
  /-- Both are beyond the start of the counter in front. -/
  | beyond {first X Y} (hf : first = true → d < X) (hf' : first = false → X = d) (hX : X ≤ d + j)
      (hY : d < Y) (hY' : Y ≤ d + j) : Leapt d j first true X Y
  /-- Both are strictly between the two starts. -/
  | between {X Y} (hX : 1 ≤ X) (hX' : X + INT32_MAX ≤ d + j) (hY : 1 ≤ Y)
      (hY' : Y + INT32_MAX ≤ d + j) : Leapt d j true true X Y

variable {d j X Y : Nat} {a b : Bool}

theorem Leapt.near (h : Leapt d j a b X Y) (hd : d ≤ 2^31) (hj : j < INT32_MAX) :
    X ≤ Y + 2^31 ∧ Y ≤ X + 2^31 := by
  have hM : INT32_MAX = 2^31 - 1 := rfl
  cases h with
  | lead hf hX hj' => omega
  | back hpos hX => omega
  | beyond hf hf' hX hY hY' =>
    cases a with
    | true => have := hf rfl; omega
    | false => have := hf' rfl; omega
  | between hX hX' hY hY' => omega

theorem Leapt.bump_first (h : Leapt d j a b X Y) :
    Leapt d (j + 1) true b (leap X Y) Y := by
  rw [leap]
  have hM : INT32_MAX = 2^31 - 1 := rfl
  cases h with
  | lead hf hX hj' =>
    split
    · exact .lead (iff_of_true rfl (Nat.succ_pos j)) (by omega) (by omega)
    · exact .back (by omega) (by omega)
  | back hpos hX =>
    split
    · exact .back (by omega) (by omega)
    · exact .back (by omega) (by omega)
  | beyond hf hf' hX hY hY' =>
    have hge : d ≤ X := by
      cases a with
      | true => exact (hf rfl).le
      | false => exact (hf' rfl).ge
    split
    · exact .beyond (by omega) (by simp) (by omega) hY (by omega)
    · exact .beyond (by omega) (by simp) (by omega) hY (by omega)
  | between hX hX' hY hY' =>
    split
    · exact .between (by omega) (by omega) hY (by omega)
    · exact .between (by omega) (by omega) hY (by omega)

theorem Leapt.bump_second (h : Leapt d j a b X Y) (hd : d ≤ 2^31) (hj : j + 1 < INT32_MAX) :
    Leapt d (j + 1) a true X (leap Y X) := by
  rw [leap]
  have hM : INT32_MAX = 2^31 - 1 := rfl
  cases h with
  | lead hf hX hj' =>
    have hfirst : a = true → d < X := fun ht => by have := hf.mp ht; omega
    have hfirst' : a = false → X = d := fun hff => by
      have : ¬0 < j := fun h0 => by rw [hf.mpr h0] at hff; cases hff
      omega
    split
    · exact .beyond hfirst hfirst' (by omega) (by omega) (by omega)
    · exact .beyond hfirst hfirst' (by omega) (by omega) (by omega)
  | back hpos hX =>
    split
    · exact .between hpos (by omega) (by omega) (by omega)
    · exact .between hpos (by omega) (by omega) (by omega)
  | beyond hf hf' hX hY hY' =>
    have hge : d ≤ X := by
      cases a with
      | true => exact (hf rfl).le
      | false => exact (hf' rfl).ge
    split
    · exact .beyond hf hf' (by omega) (by omega) (by omega)
    · exact .beyond hf hf' (by omega) (by omega) (by omega)
  | between hX hX' hY hY' =>
    split
    · exact .between hX (by omega) (by omega) (by omega)
    · exact .between hX (by omega) (by omega) (by omega)

theorem Leapt.tells (h : Leapt d j a b X Y) (hd : d ≤ 2^31) (hj : j < INT32_MAX) :
    X < 2^32 ∧ Y < 2^32 ∧ (X = d ↔ a = false) ∧ (Y = 0 ↔ b = false) := by
  have hM : INT32_MAX = 2^31 - 1 := rfl
  cases h with
  | lead hf hX hj' =>
    refine ⟨by omega, by omega, ?_, by simp⟩
    cases a with
    | true => have := hf.mp rfl; simp; omega
    | false => simpa [hX] using hf
  | back hpos hX => exact ⟨by omega, by omega, by simp; omega, by simp⟩
  | beyond hf hf' hX hY hY' =>
    refine ⟨by omega, by omega, ?_, by simp; omega⟩
    cases a with
    | true => have := hf rfl; simp; omega
    | false => simpa using hf' rfl
  | between hX hX' hY hY' => exact ⟨by omega, by omega, by simp; omega, by simp; omega⟩

/-- After fewer than `INT32_MAX` updates the counters are at offsets that tell which have been
updated. -/
theorem leaps_leapt (base : BitVec 32) (hd : d ≤ 2^31) (bs : List Bool)
    (hlen : bs.length < INT32_MAX) :
    ∃ X Y, leaps bs (base + BitVec.ofNat 32 d, base) =
        (base + BitVec.ofNat 32 X, base + BitVec.ofNat 32 Y) ∧
      Leapt d bs.length (decide (true ∈ bs)) (decide (false ∈ bs)) X Y := by
  induction bs with
  | nil => exact ⟨d, 0, by simp [leaps], .lead (by simp) rfl (.inr rfl)⟩
  | cons b bs ih =>
    simp only [List.length_cons] at hlen
    obtain ⟨X, Y, heq, h⟩ := ih (by omega)
    have hn := h.near hd (by omega)
    cases b with
    | true =>
      refine ⟨leap X Y, Y, ?_, ?_⟩
      · simp only [leaps, heq, incrementSequence_offset base hn.1 hn.2]
      · simpa using h.bump_first
    | false =>
      refine ⟨X, leap Y X, ?_, ?_⟩
      · simp only [leaps, heq, incrementSequence_offset base hn.2 hn.1]
      · simpa using h.bump_second hd hlen

theorem offset_inj (base : BitVec 32) {m n : Nat} (hm : m < 2^32) (hn : n < 2^32)
    (h : base + BitVec.ofNat 32 m = base + BitVec.ofNat 32 n) : m = n := by
  have h' := congrArg BitVec.toNat ((BitVec.add_right_inj base).mp h)
  rwa [BitVec.toNat_ofNat, BitVec.toNat_ofNat, Nat.mod_eq_of_lt hm, Nat.mod_eq_of_lt hn] at h'

/-- A counter has changed exactly if it has been updated. -/
def Detects (bs : List Bool) (c c' : BitVec 32 × BitVec 32) : Prop :=
  (c'.1 = c.1 ↔ true ∉ bs) ∧ (c'.2 = c.2 ↔ false ∉ bs)

theorem leaps_detects_of_lead (base : BitVec 32) (hd : d ≤ 2^31) (bs : List Bool)
    (hlen : bs.length < INT32_MAX) :
    Detects bs (base + BitVec.ofNat 32 d, base) (leaps bs (base + BitVec.ofNat 32 d, base)) := by
  obtain ⟨X, Y, heq, h⟩ := leaps_leapt base hd bs hlen
  obtain ⟨hX, hY, hX', hY'⟩ := h.tells hd hlen
  have hbase : base = base + BitVec.ofNat 32 0 := (BitVec.add_zero base).symm
  rw [decide_eq_false_iff_not] at hX' hY'
  rw [Detects, heq]
  constructor
  · rw [← hX']
    exact ⟨fun he => offset_inj base hX (by omega) he, fun he => by rw [he]⟩
  · rw [← hY']
    exact ⟨fun he => offset_inj base hY (by omega) (he.trans hbase),
      fun he => by rw [he]; exact hbase.symm⟩

/-- Fewer than `INT32_MAX` updates never bring an updated counter back to its start. -/
theorem leaps_detects (bs : List Bool) (c : BitVec 32 × BitVec 32)
    (hlen : bs.length < INT32_MAX) : Detects bs c (leaps bs c) := by
  obtain ⟨x, y⟩ := c
  have hx : y + BitVec.ofNat 32 (x - y).toNat = x := by
    rw [BitVec.ofNat_toNat, BitVec.setWidth_eq, BitVec.add_comm, BitVec.sub_add_cancel]
  have hy : x + BitVec.ofNat 32 (y - x).toNat = y := by
    rw [BitVec.ofNat_toNat, BitVec.setWidth_eq, BitVec.add_comm, BitVec.sub_add_cancel]
  rcases le_or_gt (x - y).toNat (2^31) with hle | hlt
  · have h := leaps_detects_of_lead y hle bs hlen
    rwa [hx] at h
  · -- the second counter is in front: read the pair the other way round
    have hle : (y - x).toNat ≤ 2^31 := by
      rw [BitVec.toNat_sub] at hlt ⊢
      have := x.isLt
      have := y.isLt
      omega
    have h := leaps_detects_of_lead x hle (bs.map not) (by simpa using hlen)
    rw [hy] at h
    have hswap := leaps_swap bs (x, y)
    rw [Prod.swap_prod_mk] at hswap
    rw [hswap] at h
    obtain ⟨h₁, h₂⟩ := h
    exact ⟨by simpa using h₂, by simpa using h₁⟩

end MediaFramework.Audio
