import MediaFramework.Codec2.SkipCutBuffer

/-!
# The trimmed stream

What comes out of a `SkipCutBuffer`, and what it holds back, is what went in without its start.
-/

namespace MediaFramework.Codec2.SkipCutBuffer

open Word

variable {α : Type*} {junk : Nat → α}

/-- What is held back. -/
def held (s : SkipCutBuffer α) : List α :=
  match s.mCutBuffer with
  | none => []
  | some cutBuffer => Ring.window cutBuffer s.mReadHead.toNat s.sizeused.toNat

theorem toSize_natCast {x : Nat} (h : x < 2 ^ 64) : toSize x = x := by
  rw [toSize, BitVec.ofInt_natCast, BitVec.toNat_ofNat, Nat.mod_eq_of_lt h]

/-- What the buffer is good for: sizes that an `int32_t` can hold, and no growth while what it holds
goes on at the start of the ring. -/
structure Fits (s : SkipCutBuffer α) (b : ABuffer α) : Prop where
  small : b.base.length < 2 ^ 31
  grown : s.mCapacity < s.sizeused + (b.rangeLength - s.mFrontPadding.toNat : Nat) + 32 →
    s.mReadHead ≤ s.mWriteHead ∧
      s.sizeused + (b.rangeLength - s.mFrontPadding.toNat : Nat) + 32 < 2 ^ 31

/-- What is left of a buffer when its start has been dropped. -/
theorem dropFront_eq {s : SkipCutBuffer α} {b : ABuffer α} {f : Nat} (hfront : s.mFrontPadding = f)
    (hsmall : b.base.length < 2 ^ 31) :
    ∃ b' : ABuffer α, s.dropFront b = some ({ s with mFrontPadding := (f - b.rangeLength : Nat) }, b',
        ((b.rangeLength - f : Nat) : Int)) ∧
      b'.base = b.base ∧ b.rangeLength - f ≤ b'.data.length ∧
      b'.data.take (b.rangeLength - f) = b.range.drop f := by
  have hinside := b.inside
  have hoffset : toInt32 b.rangeOffset = b.rangeOffset := toInt32_of_fits (by omega)
  have hbuflen : toInt32 b.rangeLength = b.rangeLength := toInt32_of_fits (by omega)
  rw [dropFront, hoffset, hbuflen, hfront]
  obtain rfl | hpos := Nat.eq_zero_or_pos f
  · have hstate : s = { s with mFrontPadding := (0 - b.rangeLength : Nat) } := by
      cases s
      rw [Nat.zero_sub, ← hfront]
    rw [if_neg (by omega)]
    refine ⟨b, ?_, rfl, ?_, rfl⟩
    · rw [← hstate]
      rfl
    · rw [ABuffer.data, List.length_drop]
      omega
  · have hdrop : (if (b.rangeLength : Int) < f then (b.rangeLength : Int) else f) =
        (min b.rangeLength f : Nat) := by
      split <;> omega
    have hstart : toSize (b.rangeOffset + (min b.rangeLength f : Nat)) =
        b.rangeOffset + min b.rangeLength f := by
      rw [← Nat.cast_add, toSize_natCast (by omega)]
    have hrest : (b.rangeLength : Int) - (min b.rangeLength f : Nat) = (b.rangeLength - f : Nat) := by
      omega
    have hfront' : (f : Int) - (min b.rangeLength f : Nat) = (f - b.rangeLength : Nat) := by
      omega
    rw [if_pos (by omega)]
    dsimp only
    rw [hdrop, hstart, hrest, hfront', toSize_natCast (by omega), ABuffer.setRange,
      dif_pos ⟨by omega, by omega⟩]
    refine ⟨_, rfl, rfl, ?_, ?_⟩
    · rw [ABuffer.data, List.length_drop]
      dsimp only
      omega
    · rw [ABuffer.data, ABuffer.range, ABuffer.data, List.drop_take, List.drop_drop]
      dsimp only
      by_cases hall : b.rangeLength ≤ f
      · have hnone : b.rangeLength - f = 0 := by omega
        rw [hnone, List.take_zero, List.take_zero]
      · rw [Nat.min_eq_right (by omega)]

/-- A cut buffer of `C` bytes with `k` of them in use from `r` on, where `c` are to be kept. -/
structure Holds (c C r k : Nat) (s : SkipCutBuffer α) (cells : List α) : Prop where
  cutBuffer : s.mCutBuffer = some cells
  length : cells.length = C
  capacity : s.mCapacity = C
  readHead : s.mReadHead = r
  writeHead : s.mWriteHead = ((r + k) % C : Nat)
  backPadding : s.mBackPadding = c
  index : r < C
  room : k + 32 ≤ C
  small : C < 2 ^ 31

namespace Holds

variable {c C r k n : Nat} {s : SkipCutBuffer α} {cells src : List α}

theorem writeHead_eq (h : Holds c C r k s cells) :
    s.mWriteHead = if r + k < C then ((r + k : Nat) : Int) else ((r + k - C : Nat) : Int) := by
  have hindex := h.index
  have hroom := h.room
  rw [h.writeHead]
  split
  · next hlt => rw [Nat.mod_eq_of_lt hlt]
  · next hge =>
    rw [Nat.mod_eq_sub_mod (by omega), Nat.mod_eq_of_lt (by omega)]

theorem sizeused (h : Holds c C r k s cells) : s.sizeused = k := by
  have hindex := h.index
  have hroom := h.room
  rw [SkipCutBuffer.sizeused, h.writeHead_eq, h.readHead, h.capacity]
  split <;> split <;> omega

theorem held (h : Holds c C r k s cells) : s.held = Ring.window cells r k := by
  rw [SkipCutBuffer.held, h.cutBuffer, h.readHead, h.sizeused, Int.toNat_natCast,
    Int.toNat_natCast]

/-- A buffer that holds nothing across its end may grow. -/
theorem grow (junk : Nat → α) (h : Holds c C r k s cells)
    (hgrow : C < k + n + 32 → r + k < C ∧ k + n + 32 < 2 ^ 31) :
    ∃ C' s' cells', s.grow junk cells n = some (s', cells') ∧ Holds c C' r k s' cells' ∧
      s'.mFrontPadding = s.mFrontPadding ∧ C ≤ C' ∧ k + n + 32 ≤ C' ∧
      Ring.window cells' r k = Ring.window cells r k := by
  have hroom := h.room
  have hsmall := h.small
  have havailable : toSize (s.mCapacity - s.sizeused - 32) = C - k - 32 := by
    have hnat : s.mCapacity - s.sizeused - 32 = ((C - k - 32 : Nat) : Int) := by
      rw [h.capacity, h.sizeused]
      omega
    rw [hnat, toSize_natCast (by omega)]
  rw [SkipCutBuffer.grow, havailable]
  dsimp only
  split
  · next hmore =>
    obtain ⟨hstraight, hfits⟩ := hgrow (by omega)
    have hcapacity : toInt32 (s.mCapacity + (n - (C - k - 32) : Nat)) = (k + n + 32 : Nat) := by
      have hnat : s.mCapacity + (n - (C - k - 32) : Nat) = ((k + n + 32 : Nat) : Int) := by
        rw [h.capacity]
        omega
      rw [hnat, toInt32_of_fits (by omega)]
    rw [hcapacity, h.capacity, if_neg (by omega), Int.toNat_natCast]
    have hlength := h.length
    have hnew := length_newMemory junk (k + n + 32)
    have hcells : Ring.poke (newMemory junk (k + n + 32)) 0 cells =
        cells ++ (newMemory junk (k + n + 32)).drop C := by
      rw [Ring.poke, List.take_zero, List.nil_append, Nat.zero_add, hlength]
    have hpoke : (Ring.poke (newMemory junk (k + n + 32)) 0 cells).length = k + n + 32 := by
      rw [Ring.length_poke (by omega), hnew]
    refine ⟨k + n + 32, _, _, rfl, ?_, rfl, by omega, le_rfl, ?_⟩
    · exact
        { cutBuffer := rfl
          length := hpoke
          capacity := rfl
          readHead := h.readHead
          writeHead := by
            have hhead := h.writeHead
            rw [Nat.mod_eq_of_lt hstraight] at hhead
            rw [Nat.mod_eq_of_lt (by omega)]
            exact hhead
          backPadding := h.backPadding
          index := by omega
          room := by omega
          small := hfits }
    · rw [hcells, Ring.window_append _ (by omega) (by omega)]
  · next hless =>
    exact ⟨C, s, cells, rfl, h, rfl, le_rfl, by omega, rfl⟩

/-- Where a head is after `n` bytes, of which `min (C - i) n` go up to the end. -/
theorem head_move {C i n : Nat} (hi : i < C) (hn : n < C) :
    (if (i : Int) + (min (C - i) n : Nat) = C then (0 : Int) else i + (min (C - i) n : Nat)) +
        (n - min (C - i) n : Nat) = ((i + n) % C : Nat) := by
  by_cases hlt : i + n < C
  · rw [Nat.mod_eq_of_lt hlt, if_neg (by omega)]
    omega
  · rw [Nat.mod_eq_sub_mod (by omega), Nat.mod_eq_of_lt (by omega), if_pos (by omega)]
    omega

theorem put (h : Holds c C r k s cells) (hroom : k + n + 32 ≤ C) (hsrc : n ≤ src.length) :
    ∃ s' cells', s.put cells src n = some s' ∧ Holds c C r (k + n) s' cells' ∧
      s'.mFrontPadding = s.mFrontPadding ∧
      Ring.window cells' r (k + n) = Ring.window cells r k ++ src.take n := by
  have hindex := h.index
  have hsmall := h.small
  have hlength := h.length
  have hi : (r + k) % C < C := Nat.mod_lt _ (by omega)
  have htake : (src.take n).length = n := by
    rw [List.length_take]
    omega
  have htwo : let i := (r + k) % cells.length
      let cells' := Ring.poke (Ring.poke cells i ((src.take n).take (cells.length - i))) 0
        ((src.take n).drop (cells.length - i))
      cells'.length = cells.length ∧
        Ring.window cells' r (k + (src.take n).length) = Ring.window cells r k ++ src.take n :=
    Ring.window_poke_two (by omega) (by omega)
  have hcopyfirst : toSize (s.mCapacity - s.mWriteHead) = C - (r + k) % C := by
    have hnat : s.mCapacity - s.mWriteHead = ((C - (r + k) % C : Nat) : Int) := by
      rw [h.capacity, h.writeHead]
      omega
    rw [hnat, toSize_natCast (by omega)]
  have hmove := head_move hi (by omega : n < C)
  rw [Nat.mod_add_mod, Nat.add_assoc] at hmove
  rw [hlength, htake] at htwo
  obtain ⟨hlen, hwindow⟩ := htwo
  rw [SkipCutBuffer.put, hcopyfirst, h.writeHead, h.capacity]
  generalize (r + k) % C = i at hi hmove hlen hwindow ⊢
  dsimp only at hlen hwindow ⊢
  obtain rfl | hpos := Nat.eq_zero_or_pos n
  · rw [Nat.min_zero, if_pos rfl, List.take_zero, List.append_nil]
    exact ⟨s, cells, rfl, h, rfl, rfl⟩
  · have hfirst : (src.take n).take (C - i) = src.take (min (C - i) n) := List.take_take
    have hsecond : (src.take n).drop (C - i) =
        (src.drop (min (C - i) n)).take (n - min (C - i) n) := by
      rw [List.drop_take]
      by_cases hend : C - i ≤ n
      · rw [Nat.min_eq_left hend]
      · have hzero : n - (C - i) = 0 := by omega
        rw [Nat.min_eq_right (by omega), hzero, Nat.sub_self, List.take_zero, List.take_zero]
    rw [hfirst, hsecond] at hlen hwindow
    rw [if_neg (by omega), if_neg (by omega), Int.toNat_natCast]
    refine ⟨_, Ring.poke (Ring.poke cells i (src.take (min (C - i) n))) 0
      ((src.drop (min (C - i) n)).take (n - min (C - i) n)), rfl, ?_, rfl, hwindow⟩
    exact
      { cutBuffer := rfl
        length := hlen
        capacity := rfl
        readHead := h.readHead
        writeHead := hmove
        backPadding := h.backPadding
        index := hindex
        room := hroom
        small := hsmall }

theorem write (junk : Nat → α) (h : Holds c C r k s cells)
    (hgrow : C < k + n + 32 → r + k < C ∧ k + n + 32 < 2 ^ 31) (hsrc : n ≤ src.length) :
    ∃ C' s' cells', s.write junk src n = some s' ∧ Holds c C' r (k + n) s' cells' ∧
      s'.mFrontPadding = s.mFrontPadding ∧ C ≤ C' ∧
      Ring.window cells' r (k + n) = Ring.window cells r k ++ src.take n := by
  obtain ⟨C', s', cells', hgrown, hholds, hfront, hle, hroom, hwindow⟩ := h.grow junk hgrow
  obtain ⟨s'', cells'', hput, hholds', hfront', hwindow'⟩ := hholds.put hroom hsrc
  refine ⟨C', s'', cells'', ?_, hholds', hfront'.trans hfront, hle, ?_⟩
  · rw [SkipCutBuffer.write, h.cutBuffer]
    dsimp only
    rw [hgrown]
    exact hput
  · rw [hwindow', hwindow]

/-- All but the last `c` bytes are read. -/
theorem read (h : Holds c C r k s cells) (hcap : n < 2 ^ 31) (hn : k - c ≤ n) :
    ∃ s' r', s.read n = some (s', Ring.window cells r (k - c), k - c) ∧
      Holds c C r' (min k c) s' cells ∧ s'.mFrontPadding = s.mFrontPadding ∧
      Ring.window cells r k = Ring.window cells r (k - c) ++ Ring.window cells r' (min k c) := by
  have hindex := h.index
  have hsmall := h.small
  have hlength := h.length
  have hroom := h.room
  rw [SkipCutBuffer.read, h.cutBuffer]
  dsimp only
  rw [h.sizeused, h.backPadding]
  by_cases hle : k ≤ c
  · have hzero : k - c = 0 := by omega
    rw [if_pos (by omega), hzero, Nat.min_eq_left hle, Ring.window_zero]
    exact ⟨s, r, rfl, h, rfl, rfl⟩
  · have hint : (k : Int) - c = ((k - c : Nat) : Int) := by omega
    have hnum : (if ((k - c : Nat) : Int) < toInt32 n then ((k - c : Nat) : Int).toNat else n) =
        k - c := by
      rw [toInt32_of_fits (by omega), Int.toNat_natCast]
      split <;> omega
    have hcopyfirst : toSize (s.mCapacity - s.mReadHead) = C - r := by
      have hnat : s.mCapacity - s.mReadHead = ((C - r : Nat) : Int) := by
        rw [h.capacity, h.readHead]
        omega
      rw [hnat, toSize_natCast (by omega)]
    have hmod : r % cells.length = r := by rw [hlength, Nat.mod_eq_of_lt hindex]
    have htwo : Ring.window cells r (k - c) =
        Ring.slice cells (r % cells.length) (min (cells.length - r % cells.length) (k - c)) ++
          Ring.slice cells 0 (k - c - min (cells.length - r % cells.length) (k - c)) :=
      Ring.window_two (by omega) (by omega)
    rw [hmod, hlength] at htwo
    have hmove := head_move hindex (by omega : k - c < C)
    rw [hint, if_neg (by omega), hnum, hcopyfirst, if_neg (by omega), h.readHead, h.capacity,
      if_neg (by omega), Int.toNat_natCast, Int.toNat_natCast, ← htwo]
    refine ⟨_, (r + (k - c)) % C, rfl, ?_, rfl, ?_⟩
    · rw [Nat.min_eq_right (by omega)]
      exact
        { cutBuffer := rfl
          length := hlength
          capacity := rfl
          readHead := hmove
          writeHead := by
            have hsum : r + (k - c) + c = r + k := by omega
            rw [Nat.mod_add_mod, hsum]
            exact h.writeHead
          backPadding := rfl
          index := Nat.mod_lt _ (by omega)
          room := by omega
          small := hsmall }
    · have hsplit : k = k - c + c := by omega
      have hwindow : Ring.window cells r (k - c + c) =
          Ring.window cells r (k - c) ++ Ring.window cells (r + (k - c)) c :=
        Ring.window_add (by omega)
      rw [← hsplit] at hwindow
      rw [Nat.min_eq_right (by omega), hwindow, ← hlength, Ring.window_mod]

theorem withFront (h : Holds c C r k s cells) (front : Int) :
    Holds c C r k { s with mFrontPadding := front } cells :=
  { h with }

/-- A step of a run: what comes out and what is held afterwards is what was held before and what
came in, without what is dropped of it. -/
theorem submit (junk : Nat → α) {f : Nat} {b : ABuffer α} (h : Holds c C r k s cells)
    (hk : k ≤ c) (hfront : s.mFrontPadding = f) (hfits : s.Fits b) :
    ∃ C' r' s' cells' b', s.submit junk b = some (s', b') ∧
      Holds c C' r' (min (k + (b.rangeLength - f)) c) s' cells' ∧
      s'.mFrontPadding = (f - b.rangeLength : Nat) ∧ b'.base.length = b.base.length ∧
      b'.range ++ Ring.window cells' r' (min (k + (b.rangeLength - f)) c) =
        Ring.window cells r k ++ b.range.drop f := by
  have hinside := b.inside
  have hsmall := hfits.small
  have hgrow : C < k + (b.rangeLength - f) + 32 →
      r + k < C ∧ k + (b.rangeLength - f) + 32 < 2 ^ 31 := by
    intro hmore
    have hgrown := hfits.grown
    rw [h.capacity, h.sizeused, hfront, Int.toNat_natCast] at hgrown
    obtain ⟨hheads, hlimit⟩ := hgrown (by omega)
    have hindex := h.index
    have hroom := h.room
    rw [h.readHead, h.writeHead_eq] at hheads
    refine ⟨?_, by omega⟩
    by_contra hwrapped
    rw [if_neg hwrapped] at hheads
    omega
  obtain ⟨b₁, hdrop, hbase, hlength, hdata⟩ := dropFront_eq hfront hsmall
  obtain ⟨C', s₂, cells', hwrite, hholds, hfront', -, hwindow⟩ :=
    (h.withFront (f - b.rangeLength : Nat)).write junk hgrow hlength
  obtain ⟨s₃, r', hread, hholds', hfront'', hsplit⟩ :=
    hholds.read hsmall (by omega : k + (b.rangeLength - f) - c ≤ b.base.length)
  have hroom := hholds.room
  have hbytes : (Ring.window cells' r (k + (b.rangeLength - f) - c)).length =
      k + (b.rangeLength - f) - c := by
    apply Ring.length_window
    rw [hholds.length]
    omega
  have hcapacity : (Ring.window cells' r (k + (b.rangeLength - f) - c)).length ≤ b₁.base.length := by
    rw [hbytes, hbase]
    omega
  obtain ⟨b₂, hrefill, hbase', hrange⟩ := b₁.refill_eq hcapacity
  refine ⟨C', r', s₃, cells', b₂, ?_, hholds', hfront''.trans hfront', ?_, ?_⟩
  · rw [SkipCutBuffer.submit, h.cutBuffer]
    dsimp only
    rw [hdrop]
    dsimp only
    rw [toSize_natCast (by omega), hwrite]
    dsimp only
    rw [hbase, hread]
    dsimp only
    rw [hbytes] at hrefill
    rw [hrefill]
  · rw [hbase', hbase]
  · rw [hrange, ← hsplit, hwindow, hdata]

end Holds

/-- The buffers of a run as they come back. -/
def submitAll (junk : Nat → α) :
    SkipCutBuffer α → List (ABuffer α) → Option (SkipCutBuffer α × List (ABuffer α))
  | s, [] => some (s, [])
  | s, b :: bs =>
    match s.submit junk b with
    | none => none
    | some (s, b) =>
      match submitAll junk s bs with
      | none => none
      | some (s, bs) => some (s, b :: bs)

instance (s : SkipCutBuffer α) (b : ABuffer α) : Decidable (s.Fits b) :=
  decidable_of_iff (b.base.length < 2 ^ 31 ∧
    (s.mCapacity < s.sizeused + (b.rangeLength - s.mFrontPadding.toNat : Nat) + 32 →
      s.mReadHead ≤ s.mWriteHead ∧
        s.sizeused + (b.rangeLength - s.mFrontPadding.toNat : Nat) + 32 < 2 ^ 31))
    ⟨fun h => ⟨h.1, h.2⟩, fun h => ⟨h.small, h.grown⟩⟩

/-- Each step of a run meets the condition in the state before it. -/
def AllFit (junk : Nat → α) : SkipCutBuffer α → List (ABuffer α) → Prop
  | _, [] => True
  | s, b :: bs =>
    s.Fits b ∧
      match s.submit junk b with
      | none => True
      | some (s, _) => AllFit junk s bs

instance decidableAllFit (junk : Nat → α) :
    (s : SkipCutBuffer α) → (bs : List (ABuffer α)) → Decidable (AllFit junk s bs)
  | _, [] => .isTrue trivial
  | s, b :: bs =>
    have : Decidable (match s.submit junk b with
        | none => True
        | some (s, _) => AllFit junk s bs) :=
      match s.submit junk b with
      | none => .isTrue trivial
      | some (s, _) => decidableAllFit junk s bs
    inferInstanceAs (Decidable (_ ∧ _))

theorem Holds.submitAll (junk : Nat → α) {c : Nat} (bs : List (ABuffer α)) {C r k f : Nat}
    {s : SkipCutBuffer α} {cells : List α} (h : Holds c C r k s cells) (hk : k ≤ c)
    (hfront : s.mFrontPadding = f) (hfits : AllFit junk s bs) :
    ∃ s' bs', SkipCutBuffer.submitAll junk s bs = some (s', bs') ∧
      List.Forall₂ (fun b b' => b'.base.length = b.base.length) bs bs' ∧
      bs'.flatMap ABuffer.range ++ s'.held = s.held ++ (bs.flatMap ABuffer.range).drop f ∧
      s'.held.length = min (k + ((bs.flatMap ABuffer.range).length - f)) c := by
  induction bs generalizing C r k f s cells with
  | nil =>
    refine ⟨s, [], rfl, .nil, ?_, ?_⟩
    · rw [List.flatMap_nil, List.drop_nil, List.append_nil, List.nil_append]
    · have hroom := h.room
      rw [h.held, Ring.length_window (by rw [h.length]; omega), List.flatMap_nil, List.length_nil]
      omega
  | cons b bs ih =>
    obtain ⟨hstep, hrest⟩ := hfits
    obtain ⟨C', r', s₁, cells', b', hsubmit, hholds, hfront', hbase, hrange⟩ :=
      h.submit junk hk hfront hstep
    rw [hsubmit] at hrest
    obtain ⟨s', bs', hall, hbases, hranges, hlength⟩ := ih hholds (by omega) hfront' hrest
    have hb : b.range.length = b.rangeLength := b.length_range
    refine ⟨s', b' :: bs', ?_, .cons hbase hbases, ?_, ?_⟩
    · rw [SkipCutBuffer.submitAll, hsubmit]
      dsimp only
      rw [hall]
    · rw [List.flatMap_cons, List.append_assoc, hranges, hholds.held, ← List.append_assoc, hrange,
        h.held, List.flatMap_cons, List.append_assoc, List.drop_append, hb]
    · rw [hlength, List.flatMap_cons, List.length_append, hb]
      omega

/-- The constructor's checks. -/
theorem new_holds {skip cut num16BitChannels : Nat}
    (h : (new junk skip cut num16BitChannels).mCutBuffer ≠ none) :
    ∃ cells, Holds (cut * (num16BitChannels * 2)) (cut * (num16BitChannels * 2) + 4096) 0 0
        (new junk skip cut num16BitChannels) cells ∧
      (new junk skip cut num16BitChannels).mFrontPadding =
        ((skip * (num16BitChannels * 2) : Nat) : Int) := by
  have hmax : INT32_MAX = 2 ^ 31 - 1 := rfl
  rw [new] at h ⊢
  split at h
  · exact absurd rfl h
  · next hchannels =>
    rw [if_neg hchannels]
    dsimp only at h ⊢
    split at h
    · exact absurd rfl h
    · next hsizes =>
      have hskip : skip * (num16BitChannels * 2) ≤ INT32_MAX :=
        (Nat.le_div_iff_mul_le (by omega)).mp (by omega)
      rw [if_neg hsizes]
      generalize num16BitChannels * 2 = frameSize at hsizes hskip ⊢
      generalize cut * frameSize = c at hsizes ⊢
      generalize skip * frameSize = front at hskip ⊢
      have hc : toInt32 c = c := toInt32_of_fits (by omega)
      obtain ⟨C, hsum⟩ : ∃ C, c + 4096 = C := ⟨_, rfl⟩
      rw [hsum]
      have hC : toInt32 C = C := toInt32_of_fits (by omega)
      refine ⟨newMemory junk C, ?_, toInt32_of_fits (by omega)⟩
      exact
        { cutBuffer := rfl
          length := length_newMemory junk C
          capacity := hC
          readHead := rfl
          writeHead := by rw [Nat.zero_add, Nat.zero_mod, Nat.cast_zero]
          backPadding := hc
          index := by omega
          room := by omega
          small := by omega }

/-- A run in which no buffer makes the ring grow while what it holds goes on at its start comes
out without what the front padding and the back padding take. -/
theorem submitAll_trims (skip cut num16BitChannels : Nat) (junk : Nat → α) (bs : List (ABuffer α))
    (hnew : (new junk skip cut num16BitChannels).mCutBuffer ≠ none)
    (hfits : AllFit junk (new junk skip cut num16BitChannels) bs) :
    ∃ s' bs', submitAll junk (new junk skip cut num16BitChannels) bs = some (s', bs') ∧
      bs'.flatMap ABuffer.range ++ s'.held =
        (bs.flatMap ABuffer.range).drop (skip * 2 * num16BitChannels) ∧
      s'.held.length = min (cut * 2 * num16BitChannels)
        ((bs.flatMap ABuffer.range).drop (skip * 2 * num16BitChannels)).length ∧
      List.Forall₂ (fun b b' => b'.base.length = b.base.length ∧ b'.range.length ≤ b.base.length)
        bs bs' := by
  obtain ⟨cells, hholds, hfront⟩ := new_holds hnew
  obtain ⟨s', bs', hall, hbases, hranges, hlength⟩ :=
    hholds.submitAll junk bs (Nat.zero_le _) hfront hfits
  have hframe : ∀ x, x * 2 * num16BitChannels = x * (num16BitChannels * 2) := by
    intro x
    rw [Nat.mul_assoc, Nat.mul_comm 2]
  rw [hframe, hframe]
  refine ⟨s', bs', hall, ?_, ?_, hbases.imp ?_⟩
  · rw [hranges, hholds.held, Ring.window_zero, List.nil_append]
  · rw [hlength, List.length_drop]
    omega
  · intro b b' hbase
    have hinside := b'.inside
    rw [b'.length_range]
    exact ⟨hbase, by omega⟩

/-- The bytes from `first` on, of which the first `offset` ones are not in the range. -/
def countedBuffer (first offset n : Nat) : ABuffer Nat :=
  ⟨(List.range (offset + n)).map (first + ·), offset, n, by
    rw [List.length_map, List.length_range]⟩

/-- Two frames of four bytes are skipped and three are cut. -/
theorem submitAll_trims_threeBuffers :
    let bs := [countedBuffer 0 2 10, countedBuffer 12 0 0, countedBuffer 12 0 20]
    (new (fun _ => 0) 2 3 2).mCutBuffer ≠ none ∧ AllFit (fun _ => 0) (new (fun _ => 0) 2 3 2) bs ∧
      ∃ s' bs', submitAll (fun _ => 0) (new (fun _ => 0) 2 3 2) bs = some (s', bs') ∧
        bs'.flatMap ABuffer.range ++ s'.held = (List.range 22).map (10 + ·) ∧
        s'.held.length = 12 := by
  intro bs
  have hnew : (new (fun _ => 0) 2 3 2).mCutBuffer ≠ none := by decide +kernel
  have hfits : AllFit (fun _ => 0) (new (fun _ => 0) 2 3 2) bs := by decide +kernel
  obtain ⟨s', bs', hall, hranges, hlength, -⟩ := submitAll_trims 2 3 2 (fun _ => 0) bs hnew hfits
  exact ⟨hnew, hfits, s', bs', hall, hranges.trans (by decide), hlength.trans (by decide)⟩

/-- A buffer of which the first `n` bytes are used. -/
def filledBuffer (n rest : Nat) : ABuffer Nat :=
  ⟨List.replicate n 1 ++ List.replicate rest 0, 0, n, by
    rw [List.length_append, List.length_replicate]
    omega⟩

/-- A byte of new memory comes out when the ring grows while what it holds goes on at its start. -/
theorem grown_across_the_end_not_trimmed :
    ¬ ∀ (skip cut num16BitChannels : Nat) (junk : Nat → Nat) (bs : List (ABuffer Nat)),
      (new junk skip cut num16BitChannels).mCutBuffer ≠ none →
      ∃ s' bs', submitAll junk (new junk skip cut num16BitChannels) bs = some (s', bs') ∧
        bs'.flatMap ABuffer.range ++ s'.held =
          (bs.flatMap ABuffer.range).drop (skip * 2 * num16BitChannels) ∧
        s'.held.length = min (cut * 2 * num16BitChannels)
          ((bs.flatMap ABuffer.range).drop (skip * 2 * num16BitChannels)).length := by
  intro htrims
  obtain ⟨s', bs', hall, hranges, hheld⟩ := htrims 0 1 1 (fun _ => 0)
    [filledBuffer 4000 0, filledBuffer 99 0, filledBuffer 4065 1000] (by decide +kernel)
  have hlengths : (submitAll (fun _ => 0) (new (fun _ => 0) 0 1 1)
      [filledBuffer 4000 0, filledBuffer 99 0, filledBuffer 4065 1000]).map
        (fun out => out.2.map ABuffer.rangeLength) = some [3998, 99, 4066] := by
    decide +kernel
  rw [hall, Option.map_some, Option.some_inj] at hlengths
  have hsum := congrArg List.length hranges
  rw [List.length_append, hheld, List.length_flatMap, List.map_congr_left fun b _ => b.length_range,
    hlengths] at hsum
  revert hsum
  decide +kernel

end MediaFramework.Codec2.SkipCutBuffer
