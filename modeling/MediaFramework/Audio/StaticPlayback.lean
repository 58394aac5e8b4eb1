import MediaFramework.Audio.StaticInvariant

/-!
# What a static track plays

The server of a static track, while the client makes no further update, hands out its
frames in buffers of any size and takes them back in parts of any size. The frames it
plays are those from the position to the end of the loop, the remaining passes of the
loop, and the rest of the buffer.
-/

namespace MediaFramework.Audio.StaticTrack

variable {mFrameCount : Nat} {t t₀ : StaticTrack} {s : StaticAudioTrackState}

/-- The indices of the frames left to play, for a finite loop count. -/
def content (mFrameCount : Nat) (s : StaticAudioTrackState) : List Nat :=
  let position := s.mPosition.toNat
  let loopStart := s.mLoopStart.toNat
  let loopEnd := s.mLoopEnd.toNat
  if s.mLoopCount = 0 then List.range' position (mFrameCount - position)
  else
    List.range' position (loopEnd - position) ++
      ((List.replicate (s.mLoopCount.toInt.toNat - 1)
          (List.range' loopStart (loopEnd - loopStart))).flatten ++
        List.range' loopStart (mFrameCount - loopStart))

theorem range'_split (a : Nat) {n m : Nat} (h : n ≤ m) :
    List.range' a m = List.range' a n ++ List.range' (a + n) (m - n) := by
  rw [List.range'_append_1, Nat.add_sub_cancel' h]

/-- There is nothing left exactly at the end of the loop or the buffer. -/
theorem content_eq_nil_iff (h : Playable mFrameCount s) :
    content mFrameCount s = [] ↔ playEnd mFrameCount s ≤ s.mPosition.toNat := by
  by_cases h0 : s.mLoopCount = 0
  · have hend : playEnd mFrameCount s = mFrameCount := if_neg (not_not_intro h0)
    rw [content, if_pos h0, hend, List.range'_eq_nil_iff]
    omega
  · have hend : playEnd mFrameCount s = s.mLoopEnd.toNat := if_pos h0
    obtain ⟨-, -, -, hin⟩ := h.loop h0
    rw [content, if_neg h0, hend, List.append_eq_nil_iff, List.range'_eq_nil_iff]
    omega

/-- The frames left are as many as counted. -/
theorem content_length {ready : BitVec 64} (h : Playable mFrameCount s) (hfin : 0 ≤ s.mLoopCount.toInt)
    (hc : FramesCounted mFrameCount s ready) :
    ((content mFrameCount s).length : Int) = ready.toInt := by
  have hpos := h.position_le
  rw [FramesCounted, if_neg (by omega)] at hc
  rw [hc]
  by_cases h0 : s.mLoopCount = 0
  · have hz : s.mLoopCount.toInt = 0 := by rw [h0]; rfl
    simp only [content, if_pos h0, List.length_range', hz, Int.zero_mul]
    omega
  · have hne : s.mLoopCount.toInt ≠ 0 := fun hz => h0 (BitVec.toInt_inj.mp hz)
    obtain ⟨hse, hle, -, hin⟩ := h.loop h0
    obtain ⟨k, hk⟩ : ∃ k : Nat, s.mLoopCount.toInt = k + 1 := ⟨s.mLoopCount.toInt.toNat - 1, by omega⟩
    have hloops : ((k : Int) + 1).toNat - 1 = k := by omega
    obtain ⟨l, hl⟩ : ∃ l : Nat, s.mLoopEnd.toNat = s.mLoopStart.toNat + l := ⟨_, (Nat.add_sub_cancel' hse.le).symm⟩
    have hmul : ((k : Int) + 1) * l = (k * l : Nat) + l := by
      rw [Int.add_mul, Int.one_mul, Int.natCast_mul]
    have hlen : (s.mLoopEnd.toNat : Int) - s.mLoopStart.toNat = l := by omega
    simp only [content, if_neg h0, List.length_append, List.length_range', List.length_flatten,
      List.map_replicate, List.sum_replicate_nat, hloops, hk, hlen, hmul]
    have hl' : s.mLoopEnd.toNat - s.mLoopStart.toNat = l := by omega
    rw [hl']
    omega

/-- Playing `n` frames takes the first `n` of the frames left. -/
theorem content_played {n : Nat} (hF : mFrameCount < 2^32) (h : Playable mFrameCount s)
    (hfin : 0 ≤ s.mLoopCount.toInt) (hn : n ≤ playEnd mFrameCount s - s.mPosition.toNat) :
    content mFrameCount s =
      List.range' s.mPosition.toNat n ++ content mFrameCount (played s n) := by
  have hpos := h.position_le
  have hle := playEnd_le h
  have hnat : (BitVec.ofNat 32 (s.mPosition.toNat + n)).toNat = s.mPosition.toNat + n := by
    rw [BitVec.toNat_ofNat]
    omega
  by_cases h0 : s.mLoopCount = 0
  · have hend : playEnd mFrameCount s = mFrameCount := if_neg (not_not_intro h0)
    rw [hend] at hn
    simp only [content, played, h0, ne_eq, not_true, false_and, if_false, if_true, hnat]
    rw [range'_split _ hn, Nat.sub_sub]
  · have hend : playEnd mFrameCount s = s.mLoopEnd.toNat := if_pos h0
    have hne : s.mLoopCount.toInt ≠ 0 := fun hz => h0 (BitVec.toInt_inj.mp hz)
    obtain ⟨hlt, -, -, hin⟩ := h.loop h0
    rw [hend] at hn
    by_cases hw : s.mPosition.toNat + n = s.mLoopEnd.toNat
    · -- the wrap: one pass of the loop fewer
      have hlen : s.mLoopEnd.toNat - s.mPosition.toNat = n := by omega
      have hpred := toInt_pred h.count_ge
      have hcount : s.mLoopCount.toInt ≠ -1 := by omega
      simp only [content, played, ne_eq, h0, not_false_eq_true, true_and, if_pos hw, hcount, if_true, if_false,
        hlen, hpred, List.append_cancel_left_eq]
      by_cases h1 : s.mLoopCount - 1 = 0
      · have hz : s.mLoopCount.toInt - 1 = 0 := by rw [← hpred, h1]; rfl
        have hzero : s.mLoopCount.toInt.toNat - 1 = 0 := by omega
        rw [if_pos h1, hzero, List.replicate_zero, List.flatten_nil, List.nil_append]
      · have hne1 : s.mLoopCount.toInt - 1 ≠ 0 := fun hz => h1 (BitVec.toInt_inj.mp (hpred.trans hz))
        have hsucc : s.mLoopCount.toInt.toNat - 1 = (s.mLoopCount.toInt - 1).toNat - 1 + 1 := by omega
        rw [if_neg h1, hsucc, List.replicate_succ, List.flatten_cons, List.append_assoc]
    · simp only [content, played, ne_eq, h0, not_false_eq_true, true_and, if_neg hw, if_false, hnat]
      rw [range'_split _ hn, Nat.sub_sub, List.append_assoc]

theorem played_finite {n : Nat} (h : Playable mFrameCount s) (hfin : 0 ≤ s.mLoopCount.toInt) :
    0 ≤ (played s n).mLoopCount.toInt := by
  rw [played]
  split
  · next hw =>
    have hne : s.mLoopCount.toInt ≠ 0 := fun hz => hw.1 (BitVec.toInt_inj.mp hz)
    have hcount : s.mLoopCount.toInt ≠ -1 := by omega
    simp only [ne_eq, hcount, not_false_eq_true, if_true, toInt_pred h.count_ge]
    omega
  · exact hfin

/-- Until the end of the loop or the buffer the position advances by what is played. -/
theorem played_position {n : Nat} (hF : mFrameCount < 2^32) (h : Playable mFrameCount s)
    (hn : s.mPosition.toNat + n < playEnd mFrameCount s) :
    (played s n).mPosition.toNat = s.mPosition.toNat + n := by
  have hle := playEnd_le h
  have hw : ¬(s.mLoopCount ≠ 0 ∧ s.mPosition.toNat + n = s.mLoopEnd.toNat) := by
    rintro ⟨h0, hend⟩
    rw [playEnd, if_pos h0] at hn
    omega
  rw [played, if_neg hw]
  dsimp only
  rw [BitVec.toNat_ofNat]
  omega

/-! ### The calls, with no update of the client pending -/

/-- No state of the client waits for the server. -/
def Quiet (t : StaticTrack) : Prop :=
  SingleStateQueue.poll t.server.mObserver t.cblk.mSingleStateQueue = none

theorem Quiet.pollPosition (h : Quiet t) : t.pollPosition mFrameCount = (.NO_ERROR, t) := by
  rw [StaticTrack.pollPosition, h]

theorem Quiet.framesReady (h : Quiet t) : (t.framesReady mFrameCount).2 = t := by
  simp only [StaticTrack.framesReady, h.pollPosition, ite_self]

/-- What an obtained buffer holds. -/
theorem Quiet.obtainBuffer (hF : mFrameCount < 2^32) (hq : Quiet t) (hup : t.server.mIsShutdown = false)
    (h : Inv mFrameCount t true) (wanted : Nat) :
    ∃ avail nonContig,
      avail = min (playEnd mFrameCount t.server.mState - t.server.mState.mPosition.toNat) wanted ∧
      t.obtainBuffer mFrameCount wanted false = some (.NO_ERROR,
        ⟨avail, if t.server.mState.mPosition.toNat < playEnd mFrameCount t.server.mState then
          some t.server.mState.mPosition.toNat else none, nonContig⟩,
        { t with server.mUnreleased := avail }) := by
  have hle := playEnd_le h.playable
  have hready := h.playEnd_le_ready hF
  have havail := Nat.min_le_left
    (playEnd mFrameCount t.server.mState - t.server.mState.mPosition.toNat) wanted
  have hfit : ¬t.server.mFramesReady.toInt < (BitVec.ofNat 64
      (min (playEnd mFrameCount t.server.mState - t.server.mState.mPosition.toNat) wanted)).toInt := by
    rw [toInt_ofNat_of_lt (by omega)]
    omega
  simp only [StaticTrack.obtainBuffer, hup, Bool.false_eq_true, if_false, hq.pollPosition, if_neg hfit]
  exact ⟨_, _, rfl, rfl⟩

/-- A release changes nothing of the queue of the client's states. -/
theorem releaseBuffer_frame {t' : StaticTrack} {n : Nat} (h : t.releaseBuffer mFrameCount n = some t') :
    t'.server.mIsShutdown = t.server.mIsShutdown ∧ t'.server.mObserver = t.server.mObserver ∧
      t'.cblk.mSingleStateQueue = t.cblk.mSingleStateQueue := by
  simp only [StaticTrack.releaseBuffer] at h
  rw [Option.ite_none_left_eq_some] at h
  obtain ⟨-, h⟩ := h
  rw [Option.ite_none_left_eq_some] at h
  obtain ⟨-, h⟩ := h
  split at h
  · cases h
    exact ⟨rfl, rfl, rfl⟩
  · cases h
    exact ⟨rfl, rfl, rfl⟩

/-! ### The player -/

/-- The server's side of a track with what it has played: `next` is the first frame of the
outstanding buffer not yet released, `heard` the indices of the frames released. -/
structure Player where
  track : StaticTrack
  next : Option Nat := none
  heard : List Nat := []

namespace Player

inductive Call
  | framesReady
  | obtainBuffer (frameCount : Nat)
  | releaseBuffer (frameCount : Nat)

variable (mFrameCount)

def step (x : Player) : Call → Option Player
  | .framesReady => some { x with track := (x.track.framesReady mFrameCount).2 }
  | .obtainBuffer wanted =>
    (x.track.obtainBuffer mFrameCount wanted false).map fun r =>
      { x with track := r.2.2, next := r.2.1.mRaw }
  | .releaseBuffer n =>
    (x.track.releaseBuffer mFrameCount n).map fun t =>
      { track := t
        next := x.next.map (· + n)
        heard := x.heard ++ x.next.elim [] (List.range' · n) }

/-- Playback from a track in a given state. -/
def machine (t : StaticTrack) : Machine Player Call := ⟨{ track := t }, step mFrameCount⟩

variable {mFrameCount} {x x' : Player}

/-- A release is of at most what is left of the outstanding buffer. -/
def Permitted (x : Player) : Call → Prop
  | .releaseBuffer n => n ≤ x.track.server.mUnreleased
  | _ => True

/-- A track ready to play a finite number of frames: the client's last update is taken
over, and no buffer is out. -/
structure Ready (mFrameCount : Nat) (t : StaticTrack) : Prop where
  up : t.server.mIsShutdown = false
  quiet : Quiet t
  playable : Playable mFrameCount t.server.mState
  finite : 0 ≤ t.server.mState.mLoopCount.toInt
  counted : t.server.mFramesReady = framesLeft mFrameCount t.server.mState t.server.mFramesReady
  unreleased : t.server.mUnreleased = 0

/-- The frames heard are the first of the content of the start, `mFramesReady` counts the
others, no permitted call aborts, and a buffer obtained is empty exactly when all is heard. -/
structure Exact (mFrameCount : Nat) (t₀ : StaticTrack) (x : Player) : Prop where
  heard : x.heard <+: content mFrameCount t₀.server.mState
  left : (x.heard.length : Int) + x.track.server.mFramesReady.toInt =
    (content mFrameCount t₀.server.mState).length
  no_fatal : ∀ c, Permitted x c → (x.step mFrameCount c).isSome
  ends : ∀ wanted r, 0 < wanted → x.track.obtainBuffer mFrameCount wanted false = some r →
    (r.2.1.mFrameCount = 0 ↔ x.heard = content mFrameCount t₀.server.mState)

/-- The invariant of playback. -/
structure Playing (mFrameCount : Nat) (t₀ : StaticTrack) (x : Player) : Prop where
  up : x.track.server.mIsShutdown = false
  quiet : Quiet x.track
  inv : Inv mFrameCount x.track true
  finite : 0 ≤ x.track.server.mState.mLoopCount.toInt
  next : 0 < x.track.server.mUnreleased → x.next = some x.track.server.mState.mPosition.toNat
  heard : x.heard ++ content mFrameCount x.track.server.mState = content mFrameCount t₀.server.mState

theorem Playing.init (hF : mFrameCount < 2^32) (h : Ready mFrameCount t) :
    Playing mFrameCount t { track := t } where
  up := h.up
  quiet := h.quiet
  inv := by
    refine ⟨h.playable, ?_, fun _ => ?_⟩
    · rw [h.counted]
      exact framesLeft_counted hF h.playable _
    · rw [h.unreleased]
      exact Nat.zero_le _
  finite := h.finite
  next := fun hu => absurd hu (by rw [h.unreleased]; exact lt_irrefl 0)
  heard := List.nil_append _

theorem Playing.obtainBuffer (hF : mFrameCount < 2^32) (h : Playing mFrameCount t₀ x) (wanted : Nat) :
    ∃ x', x.step mFrameCount (.obtainBuffer wanted) = some x' ∧ Playing mFrameCount t₀ x' := by
  obtain ⟨avail, nonContig, havail, heq⟩ := Quiet.obtainBuffer hF h.quiet h.up h.inv wanted
  refine ⟨_, congrArg (Option.map _) heq, h.up, h.quiet,
    ⟨h.inv.playable, h.inv.counted, fun _ => ?_⟩, h.finite, fun hu => ?_, h.heard⟩
  · rw [havail]
    exact Nat.min_le_left _ _
  · dsimp only at hu ⊢
    rw [if_pos (by omega)]

theorem Playing.releaseBuffer {n : Nat} (hF : mFrameCount < 2^32) (h : Playing mFrameCount t₀ x)
    (hn : n ≤ x.track.server.mUnreleased) :
    ∃ x', x.step mFrameCount (.releaseBuffer n) = some x' ∧ Playing mFrameCount t₀ x' := by
  have hheld := h.inv.held rfl
  by_cases h0 : n = 0
  · subst h0
    have hsame := releaseBuffer_zero hF h.inv
    refine ⟨_, congrArg (Option.map _) hsame, h.up, h.quiet, h.inv, h.finite, fun hu => ?_, ?_⟩
    · rw [h.next hu]
      rfl
    · have hnone : x.next.elim [] (List.range' · 0) = [] := by
        cases x.next <;> rfl
      rw [hnone, List.append_nil]
      exact h.heard
  · obtain ⟨t', heq, hstate, hready, hunrel⟩ := releaseBuffer_spec hF h.inv hn h0
    obtain ⟨hup, hobs, hqueue⟩ := releaseBuffer_frame heq
    obtain ⟨t'', heq', hinv⟩ := h.inv.releaseBuffer hF hn
    obtain rfl : t' = t'' := Option.some.inj (heq.symm.trans heq')
    have hnext := h.next (by omega)
    have hcontent := content_played hF h.inv.playable h.finite (hn.trans hheld)
    refine ⟨_, congrArg (Option.map _) heq, hup.trans h.up, ?_, hinv, ?_, fun hu => ?_, ?_⟩
    · rw [Quiet, hobs, hqueue]
      exact h.quiet
    · rw [hstate]
      exact played_finite h.inv.playable h.finite
    · dsimp only at hu ⊢
      rw [hunrel] at hu
      rw [hnext, hstate, played_position hF h.inv.playable (by omega)]
      rfl
    · rw [← h.heard, hcontent, hstate, hnext, Option.elim_some, List.append_assoc]

theorem Playing.step (hF : mFrameCount < 2^32) {c : Call} (h : Playing mFrameCount t₀ x)
    (hp : Permitted x c) : ∃ x', x.step mFrameCount c = some x' ∧ Playing mFrameCount t₀ x' := by
  cases c with
  | framesReady =>
    refine ⟨_, rfl, ?_⟩
    rw [h.quiet.framesReady]
    exact h
  | obtainBuffer wanted => exact h.obtainBuffer hF wanted
  | releaseBuffer n => exact h.releaseBuffer hF hp

theorem Playing.of_run (hF : mFrameCount < 2^32) (h : Ready mFrameCount t)
    (hr : (machine mFrameCount t).Run Permitted x) : Playing mFrameCount t x := by
  refine Machine.Run.invariant (Playing.init hF h) ?_ hr
  intro x c x' hx hp hstep
  obtain ⟨x'', heq, hx'⟩ := hx.step hF hp
  obtain rfl : x'' = x' := Option.some.inj (heq.symm.trans hstep)
  exact hx'

theorem Playing.exact (hF : mFrameCount < 2^32) (h : Playing mFrameCount t₀ x) :
    Exact mFrameCount t₀ x where
  heard := ⟨_, h.heard⟩
  left := by
    rw [← h.heard, List.length_append, Nat.cast_add,
      content_length h.inv.playable h.finite h.inv.counted]
  no_fatal c hp := by
    obtain ⟨x', heq, -⟩ := h.step hF hp
    rw [heq]
    rfl
  ends wanted r hw hr := by
    obtain ⟨avail, nonContig, havail, heq⟩ := Quiet.obtainBuffer hF h.quiet h.up h.inv wanted
    obtain rfl := Option.some.inj (heq.symm.trans hr)
    have hnil : x.heard = content mFrameCount t₀.server.mState ↔
        content mFrameCount x.track.server.mState = [] := by
      rw [← h.heard, List.self_eq_append_right]
    rw [hnil, content_eq_nil_iff h.inv.playable]
    dsimp only
    omega

/-! ### Frame counts beyond the position -/

theorem Ready.fresh (mFrameCount : Nat) : Ready mFrameCount (fresh mFrameCount) where
  up := rfl
  quiet := rfl
  playable := fresh_playable mFrameCount
  finite := (by decide : 0 ≤ (0 : BitVec 32).toInt)
  counted := by
    have hcount : (StaticTrack.fresh mFrameCount).server.mState.mLoopCount = 0 := rfl
    have hpos : (StaticTrack.fresh mFrameCount).server.mState.mPosition = 0 := rfl
    rw [framesLeft, hcount, hpos, if_neg (by decide), if_pos rfl]
    exact (BitVec.sub_zero _).symm
  unreleased := rfl

/-- A new track of `2^32` frames or more, played as one buffer: all is heard, and the
position is truncated. -/
theorem fresh_played (hbig : 2^32 ≤ mFrameCount) (h : mFrameCount < 2^63) :
    ∃ x, (machine mFrameCount (StaticTrack.fresh mFrameCount)).Run Permitted x ∧
      x.heard = content mFrameCount (StaticTrack.fresh mFrameCount).server.mState ∧
      x.track.server.mIsShutdown = false ∧ Quiet x.track ∧
      x.track.server.mState.mLoopCount = 0 ∧
      x.track.server.mState.mPosition = BitVec.ofNat 32 mFrameCount ∧
      x.track.server.mFramesReady = readyAfter (BitVec.ofNat 64 mFrameCount) mFrameCount := by
  obtain ⟨nonContig, hobt⟩ := fresh_obtains mFrameCount
  obtain ⟨t', hrel, hup, hstate⟩ := fresh_releaseBuffer hbig h
  obtain ⟨-, hobs, hqueue⟩ := releaseBuffer_frame hrel
  rw [if_pos (by omega)] at hobt
  have hok : Permitted (machine mFrameCount (StaticTrack.fresh mFrameCount)).init
    (.obtainBuffer mFrameCount) := trivial
  have hrun := Machine.Run.init.step hok (congrArg (Option.map _) hobt)
  have hok' : Permitted
      ⟨{ StaticTrack.fresh mFrameCount with server.mUnreleased := mFrameCount }, some 0, []⟩
      (.releaseBuffer mFrameCount) := le_refl mFrameCount
  have hrun' := hrun.step hok' (congrArg (Option.map _) hrel)
  refine ⟨_, hrun', rfl, hup, ?_, hstate⟩
  rw [Quiet, hobs, hqueue]
  rfl

/-- The fatal check of an obtain. -/
theorem obtainBuffer_fatal {wanted : Nat} (hq : Quiet t) (hup : t.server.mIsShutdown = false)
    (h : t.server.mFramesReady.toInt < (BitVec.ofNat 64
      (min (playEnd mFrameCount t.server.mState - t.server.mState.mPosition.toNat) wanted)).toInt) :
    t.obtainBuffer mFrameCount wanted false = none := by
  simp only [StaticTrack.obtainBuffer, hup, Bool.false_eq_true, if_false, hq.pollPosition, if_pos h]

/-- With the whole buffer heard, the truncated position offers frames that are not counted. -/
theorem fresh_played_fatal (hbig : 2^32 ≤ mFrameCount) (h : mFrameCount < 2^63 - 1) :
    ∃ x, (machine mFrameCount (StaticTrack.fresh mFrameCount)).Run Permitted x ∧
      x.heard = content mFrameCount (StaticTrack.fresh mFrameCount).server.mState ∧
      x.step mFrameCount (.obtainBuffer 1) = none := by
  obtain ⟨x, hr, hheard, hup, hq, hcount, hpos, hready⟩ := fresh_played hbig (by omega)
  refine ⟨x, hr, hheard, ?_⟩
  have hend : playEnd mFrameCount x.track.server.mState = mFrameCount := if_neg (not_not_intro hcount)
  have hnat : x.track.server.mState.mPosition.toNat = mFrameCount % 2^32 := by
    rw [hpos, BitVec.toNat_ofNat]
  have hzero : x.track.server.mFramesReady = 0 := by
    have hfin : BitVec.ofNat 64 mFrameCount ≠ INT64_MAX := by
      intro hmax
      have hnat := congrArg BitVec.toNat hmax
      have hval : INT64_MAX.toNat = 2^63 - 1 := by decide
      rw [BitVec.toNat_ofNat, hval] at hnat
      omega
    rw [hready, readyAfter, if_neg hfin, BitVec.sub_self]
    rfl
  have hone : min (mFrameCount - mFrameCount % 2^32) 1 = 1 := by omega
  refine congrArg (Option.map _) (obtainBuffer_fatal hq hup ?_)
  rw [hend, hnat, hone, hzero]
  decide

/-- Every track ready to play plays exactly its content, in buffers and releases of any
size, exactly if the frame count fits the 32-bit position. -/
theorem static_playback_exact_iff (mFrameCount : Nat) :
    (∀ t, Ready mFrameCount t → ∀ x, (machine mFrameCount t).Run Permitted x → Exact mFrameCount t x) ↔
      mFrameCount ≤ UINT32_MAX := by
  constructor
  · intro hall
    have hfresh := hall _ (Ready.fresh mFrameCount)
    have hcontent : (content mFrameCount (StaticTrack.fresh mFrameCount).server.mState).length =
      mFrameCount := List.length_range'
    by_contra hbig
    rw [UINT32_MAX, not_le] at hbig
    rcases Nat.lt_or_ge mFrameCount (2^63 - 1) with hlt | hge
    · obtain ⟨x, hr, -, hfatal⟩ := fresh_played_fatal (by omega) hlt
      have hsome := (hfresh x hr).no_fatal (.obtainBuffer 1) trivial
      rw [hfatal] at hsome
      exact absurd hsome (by decide)
    rcases Nat.lt_or_ge mFrameCount (2^63) with h63 | h63
    · -- the count that reads as infinite is never used up
      obtain rfl : mFrameCount = 2^63 - 1 := by omega
      obtain ⟨x, hr, hheard, -, -, -, -, hready⟩ := fresh_played (by decide) h63
      have hleft := (hfresh x hr).left
      have hmax : (readyAfter (BitVec.ofNat 64 (2^63 - 1)) (2^63 - 1)).toInt = 2^63 - 1 := by decide
      rw [hready, hheard, hcontent, hmax] at hleft
      omega
    · -- the count is negative from the start
      have hleft := (hfresh _ .init).left
      have hlt := BitVec.toInt_lt (x := BitVec.ofNat 64 mFrameCount)
      have hready : (StaticTrack.fresh mFrameCount).server.mFramesReady = BitVec.ofNat 64 mFrameCount := rfl
      simp only [machine, List.length_nil, hready, hcontent] at hleft
      omega
  · intro hF t ht x hr
    have hF' : mFrameCount < 2^32 := Nat.lt_of_le_of_lt hF (by decide)
    exact (Playing.of_run hF' ht hr).exact hF'

/-- A new track of `2^32` frames, played as one buffer: all is heard, and the next obtain
aborts instead of returning no frames. -/
theorem static_playback_never_ends :
    ∃ x, (machine (2^32) (StaticTrack.fresh (2^32))).Run Permitted x ∧
      Ready (2^32) (StaticTrack.fresh (2^32)) ∧
      x.heard = content (2^32) (StaticTrack.fresh (2^32)).server.mState ∧
      x.step (2^32) (.obtainBuffer 1) = none := by
  obtain ⟨x, hr, hheard, hfatal⟩ := fresh_played_fatal (le_refl (2^32)) (by decide)
  exact ⟨x, hr, Ready.fresh _, hheard, hfatal⟩

end Player

end MediaFramework.Audio.StaticTrack
