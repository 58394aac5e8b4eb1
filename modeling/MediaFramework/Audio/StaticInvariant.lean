import MediaFramework.Audio.StaticTrack

/-!
# The state of a static track

Position, loop and frames-ready count of the server agree along every run, for every
frame count that fits the 32-bit position and for no other.
-/

namespace MediaFramework.Audio.StaticTrack

variable {mFrameCount : Nat} {t : StaticTrack} {s s' u : StaticAudioTrackState}

/-- A state the server can play from. -/
structure Playable (mFrameCount : Nat) (s : StaticAudioTrackState) : Prop where
  position_le : s.mPosition.toNat ≤ mFrameCount
  count_ge : -1 ≤ s.mLoopCount.toInt
  loop : s.mLoopCount ≠ 0 →
    s.mLoopStart.toNat < s.mLoopEnd.toNat ∧ s.mLoopEnd.toNat ≤ mFrameCount ∧
      MIN_LOOP ≤ s.mLoopEnd.toNat - s.mLoopStart.toNat ∧ s.mPosition.toNat < s.mLoopEnd.toNat

/-- `ready` is the number of frames left to play. -/
def FramesCounted (mFrameCount : Nat) (s : StaticAudioTrackState) (ready : BitVec 64) : Prop :=
  if s.mLoopCount.toInt = -1 then ready = INT64_MAX
  else ready.toInt =
    s.mLoopCount.toInt * (s.mLoopEnd.toNat - s.mLoopStart.toNat) + mFrameCount - s.mPosition.toNat

theorem updateStateWithLoop_playable (h : Playable mFrameCount s)
    (hs : updateStateWithLoop mFrameCount s u = some s') : Playable mFrameCount s' := by
  simp only [updateStateWithLoop] at hs
  split at hs
  · cases hs
    exact h
  · rw [Option.ite_none_left_eq_some] at hs
    obtain ⟨hok, hs⟩ := hs
    rw [not_or, not_not, not_lt] at hok
    obtain ⟨hvalid, hpos⟩ := hok
    cases hs
    by_cases h0 : u.mLoopCount = 0
    · simp only [h0, ne_eq, not_true, false_and, if_false, BitVec.ofNat_toNat, BitVec.setWidth_eq]
      exact ⟨h.position_le, (by decide : -1 ≤ (0 : BitVec 32).toInt), fun hne => absurd rfl hne⟩
    · obtain ⟨hcount, hlt, hle, hmin⟩ := hvalid.resolve_left h0
      have hv : (u.mLoopCount = 0 ∨ -1 ≤ u.mLoopCount.toInt ∧ u.mLoopStart.toNat < u.mLoopEnd.toNat ∧
          u.mLoopEnd.toNat ≤ mFrameCount ∧ MIN_LOOP ≤ u.mLoopEnd.toNat - u.mLoopStart.toNat) :=
        .inr ⟨hcount, hlt, hle, hmin⟩
      by_cases hend : u.mLoopEnd.toNat ≤ s.mPosition.toNat
      · -- the position wraps to the loop start
        rw [if_pos ⟨h0, hv, hend⟩, BitVec.ofNat_toNat, BitVec.setWidth_eq]
        exact ⟨by simp only; omega, hcount, fun _ => ⟨hlt, hle, hmin, hlt⟩⟩
      · rw [if_neg fun hc => hend hc.2.2, BitVec.ofNat_toNat, BitVec.setWidth_eq]
        exact ⟨h.position_le, hcount, fun _ => ⟨hlt, hle, hmin, by simp only; omega⟩⟩

theorem updateStateWithPosition_playable (h : Playable mFrameCount s)
    (hs : updateStateWithPosition mFrameCount s u = some s') : Playable mFrameCount s' := by
  simp only [updateStateWithPosition] at hs
  split at hs
  · cases hs
    exact h
  · rw [Option.ite_none_left_eq_some] at hs
    obtain ⟨hpos, hs⟩ := hs
    rw [not_lt] at hpos
    cases hs
    split
    · exact ⟨hpos, (by decide : -1 ≤ (0 : BitVec 32).toInt), fun hne => absurd rfl hne⟩
    · next hbeyond =>
      refine ⟨hpos, h.count_ge, fun hne => ?_⟩
      obtain ⟨hlt, hle, hmin, -⟩ := h.loop hne
      exact ⟨hlt, hle, hmin, Nat.lt_of_not_le fun hge => hbeyond ⟨hne, hge⟩⟩

theorem tryUpdate_playable (h : Playable mFrameCount s)
    (hs : tryUpdate mFrameCount s u = some s') : Playable mFrameCount s' := by
  simp only [tryUpdate] at hs
  split at hs
  · obtain ⟨s₁, h₁, h₂⟩ := Option.bind_eq_some_iff.mp hs
    exact updateStateWithPosition_playable (updateStateWithLoop_playable h h₁) h₂
  · obtain ⟨s₁, h₁, h₂⟩ := Option.bind_eq_some_iff.mp hs
    exact updateStateWithLoop_playable (updateStateWithPosition_playable h h₁) h₂

/-! ### Counting the frames left -/

theorem toInt_setWidth (x : BitVec 32) : (x.setWidth 64).toInt = x.toNat := by
  have hx := x.isLt
  rw [BitVec.toInt_eq_toNat_of_lt] <;> rw [BitVec.toNat_setWidth] <;> omega

theorem toInt_pred {c : BitVec 32} (hge : -1 ≤ c.toInt) : (c - 1).toInt = c.toInt - 1 := by
  have hlt := BitVec.toInt_lt (x := c)
  have hone : (1 : BitVec 32).toInt = 1 := by decide
  rw [BitVec.toInt_sub, hone, Int.bmod_eq_of_le (by omega) (by omega)]

theorem toInt_ofNat_of_lt {n : Nat} (h : n < 2^63) : (BitVec.ofNat 64 n).toInt = n := by
  rw [BitVec.toInt_eq_toNat_of_lt] <;> rw [BitVec.toNat_ofNat] <;> omega

/-- A finite loop of 32-bit bounds is far from the end of the 64-bit range. -/
theorem loop_frames_bound {c l n p : Int} (hF : n < 2^32) (hc : 0 ≤ c) (hc' : c < 2^31)
    (hl : 0 ≤ l) (hl' : l ≤ n) (hp : 0 ≤ p) (hp' : p ≤ n) :
    0 ≤ c * l + n - p ∧ c * l + n - p < 2^63 - 1 := by
  have h₀ : 0 ≤ c * l := Int.mul_nonneg hc hl
  have h₁ : c * l ≤ (2^31 - 1) * (2^32 - 1) :=
    Int.mul_le_mul (by omega) (by omega) hl (by decide)
  constructor
  · omega
  · omega

theorem FramesCounted.range {ready : BitVec 64} (hF : mFrameCount < 2^32)
    (hp : Playable mFrameCount s) (hc : s.mLoopCount.toInt ≠ -1)
    (h : FramesCounted mFrameCount s ready) :
    (mFrameCount : Int) - s.mPosition.toNat ≤ ready.toInt ∧ ready.toInt < 2^63 - 1 := by
  rw [FramesCounted, if_neg hc] at h
  have hpos := hp.position_le
  have hge := hp.count_ge
  have hlt := BitVec.toInt_lt (x := s.mLoopCount)
  rw [h]
  by_cases h0 : s.mLoopCount = 0
  · have hz : s.mLoopCount.toInt = 0 := by rw [h0]; rfl
    rw [hz, Int.zero_mul]
    omega
  · obtain ⟨hse, hle, -, -⟩ := hp.loop h0
    have hprod : 0 ≤ s.mLoopCount.toInt * ((s.mLoopEnd.toNat : Int) - s.mLoopStart.toNat) :=
      Int.mul_nonneg (by omega) (by omega)
    have hb := loop_frames_bound (c := s.mLoopCount.toInt)
      (l := (s.mLoopEnd.toNat : Int) - s.mLoopStart.toNat) (n := mFrameCount) (p := s.mPosition.toNat)
      (by omega) (by omega) (by omega) (by omega) (by omega) (by omega) (by omega)
    omega

theorem framesLeft_counted (hF : mFrameCount < 2^32) (h : Playable mFrameCount s)
    (ready : BitVec 64) : FramesCounted mFrameCount s (framesLeft mFrameCount s ready) := by
  have hpos := h.position_le
  have hge := h.count_ge
  have hlt := BitVec.toInt_lt (x := s.mLoopCount)
  rw [FramesCounted, framesLeft]
  by_cases hinf : s.mLoopCount.toInt = -1
  · rw [if_pos hinf, if_pos hinf]
  rw [if_neg hinf, if_neg hinf]
  by_cases h0 : s.mLoopCount = 0
  · have hz : s.mLoopCount.toInt = 0 := by rw [h0]; rfl
    rw [if_pos h0, hz, Int.zero_mul, Int.zero_add, BitVec.toInt_sub, toInt_setWidth,
      toInt_ofNat_of_lt (by omega), Int.bmod_eq_of_le (by omega) (by omega)]
  · have hne : s.mLoopCount.toInt ≠ 0 := fun hz => h0 (BitVec.toInt_inj.mp hz)
    obtain ⟨hse, hle, -, -⟩ := h.loop h0
    have hsub : (s.mLoopEnd - s.mLoopStart).toNat = s.mLoopEnd.toNat - s.mLoopStart.toNat :=
      BitVec.toNat_sub_of_le hse.le
    have hlen : (((s.mLoopEnd - s.mLoopStart).toNat : Nat) : Int) =
        (s.mLoopEnd.toNat : Int) - s.mLoopStart.toNat := by omega
    have hb := loop_frames_bound (c := s.mLoopCount.toInt)
      (l := (s.mLoopEnd.toNat : Int) - s.mLoopStart.toNat) (n := mFrameCount) (p := s.mPosition.toNat)
      (by omega) (by omega) (by omega) (by omega) (by omega) (by omega) (by omega)
    rw [if_neg h0, if_pos (by omega), BitVec.toInt_sub, BitVec.toInt_add, BitVec.toInt_mul,
      BitVec.toInt_signExtend_of_le (by omega), toInt_setWidth, toInt_setWidth, hlen,
      toInt_ofNat_of_lt (by omega), Int.bmod_add_bmod, Int.bmod_sub_bmod,
      Int.bmod_eq_of_le (by omega) (by omega)]

/-! ### The calls of the client leave the server alone -/

theorem getBufferPositionAndLoopCount_server (t : StaticTrack) :
    t.getBufferPositionAndLoopCount.server = t.server := by
  rw [getBufferPositionAndLoopCount]
  split
  · split <;> rfl
  · rfl

theorem setLoop_server (t : StaticTrack) (loopStart loopEnd : Nat) (loopCount : BitVec 32) :
    (t.setLoop loopStart loopEnd loopCount).server = t.server := by
  simp only [setLoop]
  split
  · rfl
  · simp only [pushState, getBufferPositionAndLoopCount_server]

theorem setBufferPosition_server (t : StaticTrack) (position : Nat) :
    (t.setBufferPosition position).server = t.server := by
  simp only [setBufferPosition]
  split
  · rfl
  · simp only [pushState]
    split
    · rw [getBufferPositionAndLoopCount_server]
    · rfl

/-! ### The calls of the server -/

/-- The invariant; `out` says that a buffer is out. -/
structure Inv (mFrameCount : Nat) (t : StaticTrack) (out : Bool) : Prop where
  playable : Playable mFrameCount t.server.mState
  counted : FramesCounted mFrameCount t.server.mState t.server.mFramesReady
  held : out = true → t.server.mUnreleased ≤
    playEnd mFrameCount t.server.mState - t.server.mState.mPosition.toNat

theorem Inv.of_server {t' : StaticTrack} {out : Bool} (h : Inv mFrameCount t out)
    (hs : t'.server = t.server) : Inv mFrameCount t' out := by
  constructor
  · rw [hs]
    exact h.playable
  · rw [hs]
    exact h.counted
  · rw [hs]
    exact h.held

theorem Inv.pollPosition {out : Bool} (hF : mFrameCount < 2^32) (h : Inv mFrameCount t out) :
    Inv mFrameCount (t.pollPosition mFrameCount).2 false := by
  simp only [StaticTrack.pollPosition]
  split
  · exact ⟨h.playable, h.counted, fun hf => absurd hf (by decide)⟩
  · next state observer shared _ =>
    split
    · exact ⟨h.playable, h.counted, fun hf => absurd hf (by decide)⟩
    · next trystate htry =>
      have hp := tryUpdate_playable h.playable htry
      exact ⟨hp, framesLeft_counted hF hp _, fun hf => absurd hf (by decide)⟩

/-- An update that fails validation changes nothing of the state. -/
theorem pollPosition_rejected (hs : (t.pollPosition mFrameCount).1 ≠ .NO_ERROR) :
    (t.pollPosition mFrameCount).2.server.mState = t.server.mState := by
  simp only [StaticTrack.pollPosition] at hs ⊢
  split
  · rfl
  · split
    · rfl
    · next hpoll _ _ htry =>
      simp only [hpoll, htry] at hs
      exact absurd rfl hs

theorem playEnd_le (h : Playable mFrameCount s) : playEnd mFrameCount s ≤ mFrameCount := by
  rw [playEnd]
  split
  · next h0 => exact (h.loop h0).2.1
  · exact le_rfl

/-- There are at least as many frames left as up to the end of the loop or the buffer. -/
theorem Inv.playEnd_le_ready {out : Bool} (hF : mFrameCount < 2^32) (h : Inv mFrameCount t out) :
    ((playEnd mFrameCount t.server.mState - t.server.mState.mPosition.toNat : Nat) : Int) ≤
      t.server.mFramesReady.toInt := by
  have hle := playEnd_le h.playable
  have hpos := h.playable.position_le
  have hc := h.counted
  by_cases hinf : t.server.mState.mLoopCount.toInt = -1
  · rw [FramesCounted, if_pos hinf] at hc
    have hmax : INT64_MAX.toInt = 2^63 - 1 := by decide
    rw [hc, hmax]
    omega
  · have hr := hc.range hF h.playable hinf
    omega

theorem Inv.obtainBuffer {out : Bool} (hF : mFrameCount < 2^32) (h : Inv mFrameCount t out)
    (wanted : Nat) (ackFlush : Bool) :
    ∃ r, t.obtainBuffer mFrameCount wanted ackFlush = some r ∧
      Inv mFrameCount r.2.2 (!ackFlush) := by
  simp only [StaticTrack.obtainBuffer]
  split
  · exact ⟨_, rfl, h.playable, h.counted, fun _ => Nat.zero_le _⟩
  · have hpolled := h.pollPosition hF
    split
    · next t' hpoll =>
      have hi : Inv mFrameCount t' false := by rwa [hpoll] at hpolled
      have hle := playEnd_le hi.playable
      have hready := hi.playEnd_le_ready hF
      have havail := Nat.min_le_left
        (playEnd mFrameCount t'.server.mState - t'.server.mState.mPosition.toNat) wanted
      rw [if_neg (by rw [toInt_ofNat_of_lt (by omega)]; omega)]
      refine ⟨_, rfl, ?_⟩
      cases ackFlush with
      | true => exact hi
      | false => exact ⟨hi.playable, hi.counted, fun _ => havail⟩
    · next hpoll =>
      rw [hpoll] at hpolled
      exact ⟨_, rfl, hpolled.playable, hpolled.counted, fun _ => Nat.zero_le _⟩

/-- The state after `n` frames up to the end of the loop or the buffer are played. -/
def played (s : StaticAudioTrackState) (n : Nat) : StaticAudioTrackState :=
  if s.mLoopCount ≠ 0 ∧ s.mPosition.toNat + n = s.mLoopEnd.toNat then
    { s with
      mPosition := s.mLoopStart
      mLoopCount := if s.mLoopCount.toInt ≠ -1 then s.mLoopCount - 1 else s.mLoopCount }
  else { s with mPosition := BitVec.ofNat 32 (s.mPosition.toNat + n) }

/-- The frames-ready count after a release. -/
def readyAfter (ready : BitVec 64) (n : Nat) : BitVec 64 :=
  if ready = INT64_MAX then ready else ready - BitVec.ofNat 64 n

theorem releaseBuffer_spec {n : Nat} (hF : mFrameCount < 2^32) (h : Inv mFrameCount t true)
    (hn : n ≤ t.server.mUnreleased) (h0 : n ≠ 0) :
    ∃ t', t.releaseBuffer mFrameCount n = some t' ∧
      t'.server.mState = played t.server.mState n ∧
      t'.server.mFramesReady = readyAfter t.server.mFramesReady n ∧
      t'.server.mUnreleased = t.server.mUnreleased - n := by
  have hheld := h.held rfl
  have hle := playEnd_le h.playable
  have hready := h.playEnd_le_ready hF
  have hlt := t.server.mState.mPosition.isLt
  have hmod : (t.server.mState.mPosition.toNat + n) % 2^64 = t.server.mState.mPosition.toNat + n :=
    Nat.mod_eq_of_lt (by omega)
  have hin : t.server.mState.mPosition.toNat ≤ t.server.mState.mPosition.toNat + n ∧
      t.server.mState.mPosition.toNat + n ≤ mFrameCount := by omega
  have hfit : (BitVec.ofNat 64 n).toInt ≤ t.server.mFramesReady.toInt := by
    rw [toInt_ofNat_of_lt (by omega)]
    omega
  simp only [releaseBuffer, if_neg (not_not_intro hfit), if_neg (not_not_intro hn), if_neg h0, hmod,
    hin, true_and, and_self]
  refine ⟨_, rfl, ?_, rfl, rfl⟩
  simp only [pushPosLoop, played, not_true_eq_false, if_false]
  by_cases hw : t.server.mState.mLoopCount ≠ 0 ∧
      t.server.mState.mPosition.toNat + n = t.server.mState.mLoopEnd.toNat
  · by_cases hc : t.server.mState.mLoopCount.toInt ≠ -1
    · rw [if_pos hw, if_pos ⟨hw, hc⟩, if_pos hw, if_pos hc, BitVec.ofNat_toNat, BitVec.setWidth_eq]
    · rw [if_pos hw, if_neg fun hx => hc hx.2, if_pos hw, if_neg hc, BitVec.ofNat_toNat,
        BitVec.setWidth_eq]
  · rw [if_neg hw, if_neg fun hx => hw hx.1, if_neg hw]

theorem played_playable {n : Nat} (h : Playable mFrameCount s)
    (hn : n ≤ playEnd mFrameCount s - s.mPosition.toNat) (hF : mFrameCount < 2^32) :
    Playable mFrameCount (played s n) := by
  have hpos := h.position_le
  have hge := h.count_ge
  have hle := playEnd_le h
  rw [played]
  split
  · next hw =>
    obtain ⟨hlt, hend, hmin, -⟩ := h.loop hw.1
    have hne : s.mLoopCount.toInt ≠ 0 := fun hz => hw.1 (BitVec.toInt_inj.mp hz)
    refine ⟨by simp only; omega, ?_, fun _ => ⟨hlt, hend, hmin, hlt⟩⟩
    simp only
    split
    · next hc =>
      rw [toInt_pred hge]
      omega
    · exact hge
  · next hw =>
    have hnat : (BitVec.ofNat 32 (s.mPosition.toNat + n)).toNat = s.mPosition.toNat + n := by
      rw [BitVec.toNat_ofNat]
      omega
    refine ⟨by simp only [hnat]; omega, hge, fun h0 => ?_⟩
    obtain ⟨hlt, hend, hmin, hin⟩ := h.loop h0
    rw [playEnd, if_pos h0] at hn
    have hne : s.mPosition.toNat + n ≠ s.mLoopEnd.toNat := fun he => hw ⟨h0, he⟩
    exact ⟨hlt, hend, hmin, by simp only [hnat]; omega⟩

theorem played_held {n unreleased : Nat} (hu : unreleased ≤ playEnd mFrameCount s - s.mPosition.toNat)
    (hn : n ≤ unreleased) (hF : mFrameCount < 2^32) (h : Playable mFrameCount s) :
    unreleased - n ≤ playEnd mFrameCount (played s n) - (played s n).mPosition.toNat := by
  have hle := playEnd_le h
  have hpos := h.position_le
  rw [played]
  split
  · -- at the end of the loop nothing is left of the buffer
    next hw =>
    rw [playEnd, if_pos hw.1] at hu
    omega
  · have hnat : (BitVec.ofNat 32 (s.mPosition.toNat + n)).toNat = s.mPosition.toNat + n := by
      rw [BitVec.toNat_ofNat]
      omega
    have hsame : playEnd mFrameCount { s with mPosition := BitVec.ofNat 32 (s.mPosition.toNat + n) } =
        playEnd mFrameCount s := rfl
    rw [hsame]
    simp only [hnat]
    omega

theorem played_counted {n : Nat} {ready : BitVec 64} (hF : mFrameCount < 2^32)
    (h : Playable mFrameCount s) (hc : FramesCounted mFrameCount s ready)
    (hn : n ≤ playEnd mFrameCount s - s.mPosition.toNat) :
    FramesCounted mFrameCount (played s n) (readyAfter ready n) := by
  have hle := playEnd_le h
  have hpos := h.position_le
  have hge := h.count_ge
  by_cases hinf : s.mLoopCount.toInt = -1
  · have hr : ready = INT64_MAX := by rwa [FramesCounted, if_pos hinf] at hc
    have hcount : (played s n).mLoopCount.toInt = -1 := by
      rw [played]
      split
      · simp only [hinf, ne_eq, not_true, if_false]
      · exact hinf
    rw [FramesCounted, if_pos hcount, readyAfter, if_pos hr, hr]
  · have hrange := hc.range hF h hinf
    rw [FramesCounted, if_neg hinf] at hc
    have hfin : ready ≠ INT64_MAX := by
      rintro rfl
      have hmax : INT64_MAX.toInt = 2^63 - 1 := by decide
      omega
    have hsub : (readyAfter ready n).toInt = ready.toInt - n := by
      rw [readyAfter, if_neg hfin, BitVec.toInt_sub, toInt_ofNat_of_lt (by omega),
        Int.bmod_eq_of_le (by omega) (by omega)]
    rw [FramesCounted, hsub, hc, played]
    by_cases hw : s.mLoopCount ≠ 0 ∧ s.mPosition.toNat + n = s.mLoopEnd.toNat
    · -- one loop fewer, and the position is back by the length of the loop
      have hne : s.mLoopCount.toInt ≠ 0 := fun hz => hw.1 (BitVec.toInt_inj.mp hz)
      have hdec := toInt_pred hge
      have hloop : (s.mLoopCount.toInt - 1) * ((s.mLoopEnd.toNat : Int) - s.mLoopStart.toNat) =
          s.mLoopCount.toInt * ((s.mLoopEnd.toNat : Int) - s.mLoopStart.toNat) -
            ((s.mLoopEnd.toNat : Int) - s.mLoopStart.toNat) := by rw [Int.sub_mul, Int.one_mul]
      simp only [if_pos hw, ne_eq, hinf, not_false_eq_true, if_true, hdec, hloop]
      rw [if_neg (by omega)]
      omega
    · have hnat : (BitVec.ofNat 32 (s.mPosition.toNat + n)).toNat = s.mPosition.toNat + n := by
        rw [BitVec.toNat_ofNat]
        omega
      simp only [if_neg hw, if_neg hinf, hnat]
      omega

/-- A release of nothing leaves the track as it is. -/
theorem releaseBuffer_zero (hF : mFrameCount < 2^32) (h : Inv mFrameCount t true) :
    t.releaseBuffer mFrameCount 0 = some t := by
  have hready := h.playEnd_le_ready hF
  have hfit : (BitVec.ofNat 64 0).toInt ≤ t.server.mFramesReady.toInt := by
    rw [toInt_ofNat_of_lt (by omega)]
    omega
  simp only [StaticTrack.releaseBuffer, if_neg (not_not_intro hfit), zero_le, not_true, if_false, if_true]

theorem Inv.releaseBuffer {n : Nat} (hF : mFrameCount < 2^32) (h : Inv mFrameCount t true)
    (hn : n ≤ t.server.mUnreleased) :
    ∃ t', t.releaseBuffer mFrameCount n = some t' ∧ Inv mFrameCount t' true := by
  by_cases h0 : n = 0
  · subst h0
    exact ⟨t, releaseBuffer_zero hF h, h⟩
  · obtain ⟨t', heq, hstate, hready, hunrel⟩ := releaseBuffer_spec hF h hn h0
    have hheld := h.held rfl
    refine ⟨t', heq, ?_, ?_, fun _ => ?_⟩
    · rw [hstate]
      exact played_playable h.playable (hn.trans hheld) hF
    · rw [hstate, hready]
      exact played_counted hF h.playable h.counted (hn.trans hheld)
    · rw [hstate, hunrel]
      exact played_held hheld hn hF h.playable

/-! ### Runs -/

theorem fresh_playable (mFrameCount : Nat) :
    Playable mFrameCount (fresh mFrameCount).server.mState :=
  ⟨Nat.zero_le _, (by decide : -1 ≤ (0 : BitVec 32).toInt), fun h => absurd rfl h⟩

theorem Inv.fresh (hF : mFrameCount < 2^32) : Inv mFrameCount (fresh mFrameCount) false where
  playable := fresh_playable mFrameCount
  counted := by
    have hready : (BitVec.ofNat 64 mFrameCount).toInt = mFrameCount := toInt_ofNat_of_lt (by omega)
    have hz : (0 : BitVec 32).toInt = 0 := rfl
    simp only [FramesCounted, StaticTrack.fresh, hready, hz]
    simp
  held := fun h => absurd h (by decide)

/-- No permitted call aborts, and every one keeps the invariant. -/
theorem Inv.step {out : Bool} {c : Call} (hF : mFrameCount < 2^32) (h : Inv mFrameCount t out)
    (hp : Permitted (t, out) c) :
    ∃ t', t.step mFrameCount c = some t' ∧ Inv mFrameCount t' (outstanding t out c) := by
  cases c with
  | setLoop loopStart loopEnd loopCount =>
    exact ⟨_, rfl, h.of_server (setLoop_server t loopStart loopEnd loopCount)⟩
  | setBufferPosition position => exact ⟨_, rfl, h.of_server (setBufferPosition_server t position)⟩
  | setBufferPositionAndLoop position loopStart loopEnd loopCount =>
    refine ⟨_, rfl, h.of_server ?_⟩
    rw [setBufferPositionAndLoop, setBufferPosition_server, setLoop_server]
  | getBufferPositionAndLoopCount =>
    exact ⟨_, rfl, h.of_server (getBufferPositionAndLoopCount_server t)⟩
  | framesReadyIsCalledByMultipleThreads => exact ⟨_, rfl, { h with }⟩
  | framesReady =>
    refine ⟨_, rfl, ?_⟩
    simp only [StaticTrack.framesReady]
    split
    · exact ⟨h.playable, h.counted, fun hf => absurd hf Bool.false_ne_true⟩
    · exact h.pollPosition hF
  | obtainBuffer n ackFlush =>
    obtain ⟨r, heq, hr⟩ := h.obtainBuffer hF n ackFlush
    exact ⟨r.2.2, by simp only [StaticTrack.step, heq, Option.map_some], hr⟩
  | releaseBuffer n =>
    obtain ⟨rfl, hn⟩ := hp
    exact h.releaseBuffer hF hn

theorem Inv.of_run {x : StaticTrack × Bool} (hF : mFrameCount < 2^32)
    (hr : (machine mFrameCount).Run Permitted x) : Inv mFrameCount x.1 x.2 := by
  refine Machine.Run.observe_invariant (R := Inv mFrameCount) (Inv.fresh hF) ?_ hr
  intro t out c t' h hp hstep
  obtain ⟨t'', heq, h'⟩ := h.step hF hp
  obtain rfl : t'' = t' := Option.some.inj (heq.symm.trans hstep)
  exact h'

/-- Position, loop and frames-ready count of a server that is up agree; no permitted call
aborts; a rejected update leaves the state as it is. -/
structure Consistent (mFrameCount : Nat) (x : StaticTrack × Bool) : Prop where
  state : x.1.server.mIsShutdown = false →
    Playable mFrameCount x.1.server.mState ∧
      FramesCounted mFrameCount x.1.server.mState x.1.server.mFramesReady
  no_fatal : ∀ c, Permitted x c → (x.1.step mFrameCount c).isSome
  rejected : (x.1.pollPosition mFrameCount).1 ≠ .NO_ERROR →
    (x.1.pollPosition mFrameCount).2.server.mState = x.1.server.mState

/-- The whole buffer obtained from a new track. -/
theorem fresh_obtains (mFrameCount : Nat) :
    ∃ nonContig, (fresh mFrameCount).obtainBuffer mFrameCount mFrameCount false =
      some (.NO_ERROR, ⟨mFrameCount, if 0 < mFrameCount then some 0 else none, nonContig⟩,
        { fresh mFrameCount with server.mUnreleased := mFrameCount }) := by
  have hpoll : (fresh mFrameCount).pollPosition mFrameCount = (.NO_ERROR, fresh mFrameCount) := rfl
  have hend : playEnd mFrameCount (fresh mFrameCount).server.mState = mFrameCount := rfl
  have hpos : (fresh mFrameCount).server.mState.mPosition.toNat = 0 := rfl
  have hup : ¬(fresh mFrameCount).server.mIsShutdown = true := Bool.false_ne_true
  have hready : (fresh mFrameCount).server.mFramesReady = BitVec.ofNat 64 mFrameCount := rfl
  simp only [StaticTrack.obtainBuffer, hpoll, hend, hpos, if_neg hup, Nat.sub_zero, min_self,
    hready, lt_irrefl, if_false, Bool.false_eq_true]
  exact ⟨_, rfl⟩

theorem fresh_obtainBuffer (mFrameCount : Nat) :
    (fresh mFrameCount).step mFrameCount (.obtainBuffer mFrameCount false) =
      some { fresh mFrameCount with server.mUnreleased := mFrameCount } := by
  obtain ⟨nonContig, heq⟩ := fresh_obtains mFrameCount
  rw [step, heq, Option.map_some]

/-- Playing a whole buffer of `2^32` frames or more truncates the position. -/
theorem fresh_releaseBuffer (hbig : 2^32 ≤ mFrameCount) (h : mFrameCount < 2^63) :
    ∃ t, StaticTrack.releaseBuffer mFrameCount
        { fresh mFrameCount with server.mUnreleased := mFrameCount } mFrameCount = some t ∧
      t.server.mIsShutdown = false ∧ t.server.mState.mLoopCount = 0 ∧
      t.server.mState.mPosition = BitVec.ofNat 32 mFrameCount ∧
      t.server.mFramesReady = readyAfter (BitVec.ofNat 64 mFrameCount) mFrameCount := by
  have hpos : (fresh mFrameCount).server.mState.mPosition.toNat = 0 := rfl
  have hready : (fresh mFrameCount).server.mFramesReady = BitVec.ofNat 64 mFrameCount := rfl
  have hcount : (fresh mFrameCount).server.mState.mLoopCount = 0 := rfl
  have hmod : (0 + mFrameCount) % 2^64 = mFrameCount := by omega
  have hne : mFrameCount ≠ 0 := by omega
  simp only [StaticTrack.releaseBuffer, hready, le_refl, not_true_eq_false, if_false, if_neg hne, hpos,
    hmod, hcount, ne_eq, false_and, and_false, zero_le, and_self]
  exact ⟨_, rfl, rfl, rfl, rfl, rfl⟩

/-- Two calls lead there: obtain the whole buffer and release it. -/
theorem position_truncated (hbig : 2^32 ≤ mFrameCount) (h : mFrameCount < 2^63) :
    ∃ t, (machine mFrameCount).Run Permitted (t, true) ∧ t.server.mIsShutdown = false ∧
      t.server.mState.mLoopCount = 0 ∧
      t.server.mState.mPosition = BitVec.ofNat 32 mFrameCount ∧
      t.server.mFramesReady = readyAfter (BitVec.ofNat 64 mFrameCount) mFrameCount := by
  have hobt : (machine mFrameCount).step (machine mFrameCount).init (.obtainBuffer mFrameCount false) =
      some ({ fresh mFrameCount with server.mUnreleased := mFrameCount }, true) := by
    simp only [machine, Machine.observe, fresh_obtainBuffer, Option.map_some]
    rfl
  have hok : Permitted (machine mFrameCount).init (.obtainBuffer mFrameCount false) := trivial
  have hrun := Machine.Run.init.step hok hobt
  obtain ⟨t', hrel, hup, hstate⟩ := fresh_releaseBuffer hbig h
  have hstep : (machine mFrameCount).step
      ({ fresh mFrameCount with server.mUnreleased := mFrameCount }, true)
      (.releaseBuffer mFrameCount) = some (t', true) := by
    simp only [machine, Machine.observe, step, hrel, Option.map_some]
    rfl
  have hok' : Permitted ({ fresh mFrameCount with server.mUnreleased := mFrameCount }, true)
      (.releaseBuffer mFrameCount) := ⟨rfl, le_rfl⟩
  exact ⟨t', hrun.step hok' hstep, hup, hstate⟩

/-- The state of a static track stays consistent along every run exactly if the frame count
fits the 32-bit position. -/
theorem static_consistent_iff (mFrameCount : Nat) :
    (∀ x, (machine mFrameCount).Run Permitted x → Consistent mFrameCount x) ↔
      mFrameCount ≤ UINT32_MAX := by
  constructor
  · intro hall
    by_contra hbig
    rw [UINT32_MAX, not_le] at hbig
    have hz : (0 : BitVec 32).toInt = 0 := rfl
    rcases Nat.lt_or_ge mFrameCount (2^63) with h63 | h63
    · obtain ⟨t, hr, hup, hcount, hpos, hready⟩ := position_truncated (by omega) h63
      have hc := ((hall _ hr).state hup).2
      simp only [FramesCounted, hcount, hz, hpos, hready, readyAfter] at hc
      rw [if_neg (by decide), Int.zero_mul, Int.zero_add, BitVec.toNat_ofNat] at hc
      split at hc
      · next hmax =>
        have hF : mFrameCount = 2^63 - 1 := by
          have := congrArg BitVec.toNat hmax
          rw [BitVec.toNat_ofNat, Nat.mod_eq_of_lt (by omega)] at this
          exact this
        rw [toInt_ofNat_of_lt h63] at hc
        omega
      · rw [BitVec.sub_self, BitVec.toInt_zero] at hc
        omega
    · -- the count is negative from the start
      have hc := ((hall _ .init).state rfl).2
      have hlt := BitVec.toInt_lt (x := BitVec.ofNat 64 mFrameCount)
      change (BitVec.ofNat 64 mFrameCount).toInt =
        (0 : BitVec 32).toInt * (0 - 0) + (mFrameCount : Int) - (0 : Nat) at hc
      rw [hz] at hc
      omega
  · intro hF x hr
    have hF' : mFrameCount < 2^32 := Nat.lt_of_le_of_lt hF (by decide)
    have h := Inv.of_run hF' hr
    refine ⟨fun _ => ⟨h.playable, h.counted⟩, fun c hp => ?_, pollPosition_rejected⟩
    obtain ⟨t', heq, -⟩ := h.step hF' hp
    rw [heq]
    rfl

/-- A buffer of `2^32` frames played to its end: nothing is ready, yet the position is zero,
and the next obtain aborts. -/
theorem static_position_overflow :
    ∃ x, (machine (2^32)).Run Permitted x ∧ x.1.server.mIsShutdown = false ∧
      x.1.server.mFramesReady = 0 ∧ x.1.server.mState.mPosition = 0 ∧
      x.1.server.mState.mLoopCount = 0 ∧ x.1.step (2^32) (.obtainBuffer 1 false) = none := by
  have hr := Machine.Run.of_exec (machine (2^32)) Permitted
    [.obtainBuffer (2^32) false, .releaseBuffer (2^32)] (by decide)
  exact ⟨_, hr, by decide, by decide, by decide, by decide, rfl⟩

end MediaFramework.Audio.StaticTrack
