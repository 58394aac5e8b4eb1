import MediaFramework.Audio.StreamingTrack

/-!
# Positions behind the control block

The words of the control block are the images of unbounded positions: how many frames
the client has released (`rear`), how many the server has consumed or discarded
(`front`), and where the client stood at its latest flush and at its latest stop.
`Core` and `Held` tie a track to such positions; every proxy call keeps them.
-/

namespace MediaFramework.Audio

namespace Geometry

variable (g : Geometry)

theorem overflowBit_eq : g.overflowBit = 2^(g.log2P2 + 1) := by
  rw [overflowBit, mFrameCountP2, pow_succ, Nat.mul_comm]

theorem mask_eq : g.mask = Word.lowMask 32 (g.log2P2 + 1) := by
  rw [mask, overflowBit_eq, Word.lowMask]

theorem bits_le : g.log2P2 + 1 ≤ 32 := by
  have := g.log2P2_le
  omega

theorem frameCount_lt : g.mFrameCount < g.overflowBit := by
  have h₁ := g.one_le_frameCount
  have h₂ := g.frameCount_le
  rw [overflowBit, mFrameCountP2]
  omega

theorem frameCountP2_le : g.mFrameCountP2 ≤ 2^30 :=
  Nat.pow_le_pow_right (by omega) g.log2P2_le

theorem frameCountP2_le_of_lt (h : g.log2P2 < 30) : g.mFrameCountP2 ≤ 2^29 :=
  Nat.pow_le_pow_right (by omega) (by omega)

theorem ringIndex_ofNat (x : Nat) : g.ringIndex (BitVec.ofNat 32 x) = x % g.mFrameCountP2 := by
  have hle : g.log2P2 ≤ 32 := by
    have := g.log2P2_le
    omega
  have h := Word.and_lowMask_toNat hle (BitVec.ofNat 32 x)
  rw [BitVec.toNat_ofNat, Nat.mod_mod_of_dvd x (pow_dvd_pow 2 hle)] at h
  exact h

/-- The number of values the counter above the mask can take. -/
theorem generations_eq : 2^31 / g.mFrameCountP2 = 2^(32 - (g.log2P2 + 1)) := by
  have hle := g.log2P2_le
  rw [mFrameCountP2, Nat.pow_div (by omega) (by omega)]
  congr 1
  omega

end Geometry

namespace Track

variable {α : Type*} {g : Geometry} {t : Track α}

/-- The unbounded positions a control block stands for. -/
structure Pos where
  front : Nat
  rear : Nat
  flushAt : Nat
  stopAt : Nat

/-- `word` carries the low bits of position `at`, which lies between `lo` and `hi`. -/
structure Marks (g : Geometry) (word : BitVec 32) (pos lo hi : Nat) : Prop where
  low : word.toNat % 2^(g.log2P2 + 1) = pos % 2^(g.log2P2 + 1)
  ge : lo ≤ pos
  le : pos ≤ hi

def FlushPending (t : Track α) : Prop := t.cblk.mFlush ≠ t.server.mFlush

def StopPending (t : Track α) : Prop := t.cblk.mStop ≠ t.server.mStopLast

structure Core (g : Geometry) (t : Track α) (p : Pos) : Prop where
  front : t.cblk.mFront = BitVec.ofNat 32 p.front
  rear : t.cblk.mRear = BitVec.ofNat 32 p.rear
  front_le : p.front ≤ p.rear
  rear_le : p.rear + t.client.mUnreleased ≤ p.front + g.mFrameCount
  chunk : p.rear % g.mFrameCountP2 + t.client.mUnreleased ≤ g.mFrameCountP2
  flush : t.FlushPending → Marks g t.cblk.mFlush p.flushAt p.front p.rear
  stop : t.StopPending → Marks g t.cblk.mStop p.stopAt p.front p.rear
  flush_le_stop : t.FlushPending → t.StopPending → p.flushAt ≤ p.stopAt
  size_le : t.client.mBufferSizeInFrames ≤ g.mFrameCount
  client_up : t.client.mIsShutdown = false
  server_up : t.server.mIsShutdown = false

/-- The frames the server still holds lie before every limit it has to respect. -/
structure Within (t : Track α) (p : Pos) : Prop where
  le : p.front + t.server.mUnreleased ≤ p.rear
  flush : t.FlushPending → p.front + t.server.mUnreleased ≤ p.flushAt
  stop : t.StopPending → p.front + t.server.mUnreleased ≤ p.stopAt

/-- They are also one contiguous chunk. -/
structure Held (g : Geometry) (t : Track α) (p : Pos) : Prop extends Within t p where
  chunk : p.front % g.mFrameCountP2 + t.server.mUnreleased ≤ g.mFrameCountP2

/-- No multiple of `2^31` lies between the front and the flush position, unless the buffer is
below the largest size. -/
def FlushInBlock (g : Geometry) (t : Track α) : Prop :=
  g.log2P2 < 30 ∨ (t.cblk.mFront &&& g.mask).toNat ≤ (t.cblk.mFlush &&& g.mask).toNat

/-- None lies between the stop position and the rear. -/
def StopInBlock (g : Geometry) (t : Track α) : Prop :=
  g.log2P2 < 30 ∨ (t.cblk.mStop &&& g.mask).toNat ≤ (t.cblk.mRear &&& g.mask).toNat

/-- The server finds the pending positions from their low bits: the flush position from the front,
the stop position from the rear. -/
def Rebasable (g : Geometry) (t : Track α) : Prop :=
  (t.FlushPending → FlushInBlock g t) ∧ (t.StopPending → StopInBlock g t)

instance (t : Track α) : Decidable t.FlushPending := inferInstanceAs (Decidable (_ ≠ _))

instance (t : Track α) : Decidable t.StopPending := inferInstanceAs (Decidable (_ ≠ _))

instance (g : Geometry) (t : Track α) : Decidable (FlushInBlock g t) :=
  inferInstanceAs (Decidable (_ ∨ _))

instance (g : Geometry) (t : Track α) : Decidable (StopInBlock g t) :=
  inferInstanceAs (Decidable (_ ∨ _))

/-! ### Placing a position from its low bits -/

/-- Positions that share a block of `overflowBit`, unless blocks are short enough for
differences across one to stay positive. -/
def Near (g : Geometry) (f r : Nat) : Prop :=
  g.log2P2 < 30 ∨ f / 2^(g.log2P2 + 1) = r / 2^(g.log2P2 + 1)

theorem flushedFront_eq {f r l : Nat} {flush : BitVec 32} (hm : Marks g flush l f r)
    (hr : r ≤ f + g.mFrameCount) (hn : Near g f l) :
    flushedFront g flush (BitVec.ofNat 32 r) (BitVec.ofNat 32 f) = BitVec.ofNat 32 l := by
  obtain ⟨hlow, hfl, hlr⟩ := hm
  have hF := g.frameCount_lt
  have hP := g.frameCountP2_le
  have hP2 : g.mFrameCount ≤ g.mFrameCountP2 := g.frameCount_le
  have hbit : g.overflowBit = 2 * g.mFrameCountP2 := rfl
  have hob := g.overflowBit_eq
  have hsplice : (BitVec.ofNat 32 f &&& ~~~g.mask) ||| (flush &&& g.mask) =
      BitVec.ofNat 32 (Word.rebase (g.log2P2 + 1) f l) := by
    rw [g.mask_eq]
    exact Word.splice_ofNat g.bits_le hlow
  rcases Word.div_eq_or_succ (m := g.log2P2 + 1) hfl (by omega) with hd | hd
  · have hb : Word.rebase (g.log2P2 + 1) f l = l := Word.rebase_of_div_eq hd.symm
    have hfill : (BitVec.ofNat 32 r - BitVec.ofNat 32 l).toInt = (r : Int) - l :=
      Word.toInt_sub_ofNat hlr (by omega)
    have hnw : ¬(g.overflowBit : Int) ≤ (r : Int) - l := by omega
    have hin : 0 ≤ (r : Int) - l ∧ (r : Int) - l ≤ g.mFrameCount := by omega
    simp only [flushedFront, hsplice, hb, hfill, if_neg hnw, if_pos hin]
  · -- the flush point is in the next block, so rebasing on the front is one block short
    have hb := Word.rebase_add_of_div_add_one_eq hd.symm
    have hsmall : g.mFrameCountP2 ≤ 2^29 := by
      rcases hn with hn | hn
      · exact g.frameCountP2_le_of_lt hn
      · omega
    generalize Word.rebase (g.log2P2 + 1) f l = b at hb hsplice
    rw [← hob] at hb
    have hfill : (BitVec.ofNat 32 r - BitVec.ofNat 32 b).toInt = (r : Int) - b :=
      Word.toInt_sub_ofNat (by omega) (by omega)
    have hw : (g.overflowBit : Int) ≤ (r : Int) - b := by omega
    have hin : 0 ≤ (r : Int) - b - g.overflowBit ∧
        (r : Int) - b - g.overflowBit ≤ g.mFrameCount := by omega
    simp only [flushedFront, hsplice, hfill, if_pos hw, if_pos hin, ← BitVec.ofNat_add, hb]

theorem stopLevel_eq {f r l : Nat} {stop : BitVec 32} (hm : Marks g stop l f r)
    (hr : r ≤ f + g.mFrameCount) (hn : Near g l r) :
    stopLevel g stop (BitVec.ofNat 32 r) (BitVec.ofNat 32 f) = some (BitVec.ofNat 32 l) := by
  obtain ⟨hlow, hfl, hlr⟩ := hm
  have hF := g.frameCount_lt
  have hP := g.frameCountP2_le
  have hP2 : g.mFrameCount ≤ g.mFrameCountP2 := g.frameCount_le
  have hbit : g.overflowBit = 2 * g.mFrameCountP2 := rfl
  have hob := g.overflowBit_eq
  have hsplice : (BitVec.ofNat 32 r &&& ~~~g.mask) ||| (stop &&& g.mask) =
      BitVec.ofNat 32 (Word.rebase (g.log2P2 + 1) r l) := by
    rw [g.mask_eq]
    exact Word.splice_ofNat g.bits_le hlow
  rcases Word.div_eq_or_succ (m := g.log2P2 + 1) hlr (by omega) with hd | hd
  · have hb : Word.rebase (g.log2P2 + 1) r l = l := Word.rebase_of_div_eq hd
    have hfill : (BitVec.ofNat 32 l - BitVec.ofNat 32 f).toInt = (l : Int) - f :=
      Word.toInt_sub_ofNat hfl (by omega)
    have hnw : ¬(g.overflowBit : Int) ≤ (l : Int) - f := by omega
    have hin : 0 ≤ (l : Int) - f ∧ (l : Int) - f ≤ g.mFrameCount := by omega
    simp only [stopLevel, hsplice, hb, hfill, if_neg hnw, if_pos hin]
  · -- the rear has moved on to the next block, so rebasing on it is one block too far
    have hb := Word.rebase_of_div_eq_add_one hd
    have hsmall : g.mFrameCountP2 ≤ 2^29 := by
      rcases hn with hn | hn
      · exact g.frameCountP2_le_of_lt hn
      · omega
    rw [← hob] at hb
    have hfill : (BitVec.ofNat 32 (l + g.overflowBit) - BitVec.ofNat 32 f).toInt =
        ((l + g.overflowBit : Nat) : Int) - f := Word.toInt_sub_ofNat (by omega) (by omega)
    have hw : (g.overflowBit : Int) ≤ ((l + g.overflowBit : Nat) : Int) - f := by omega
    have hin : 0 ≤ ((l + g.overflowBit : Nat) : Int) - f - g.overflowBit ∧
        ((l + g.overflowBit : Nat) : Int) - f - g.overflowBit ≤ g.mFrameCount := by omega
    have hback : BitVec.ofNat 32 (l + g.overflowBit) - BitVec.ofNat 32 g.overflowBit =
        BitVec.ofNat 32 l := by
      rw [BitVec.sub_eq_iff_eq_add, ← BitVec.ofNat_add]
    simp only [stopLevel, hsplice, hb, hfill, if_pos hw, if_pos hin, hback]

/-- A stop level that is not rejected is within a buffer of the front, wherever it came
from. -/
theorem stopLevel_range {stop rear front l : BitVec 32} (h : stopLevel g stop rear front = some l) :
    0 ≤ (l - front).toInt ∧ (l - front).toInt ≤ g.mFrameCount := by
  have hF := g.frameCount_lt
  have hP := g.frameCountP2_le
  have hbit : g.overflowBit = 2 * g.mFrameCountP2 := rfl
  simp only [stopLevel] at h
  generalize (rear &&& ~~~g.mask) ||| (stop &&& g.mask) = newRear at h
  by_cases hw : (g.overflowBit : Int) ≤ (newRear - front).toInt
  · simp only [if_pos hw, Option.ite_none_right_eq_some, Option.some.injEq] at h
    obtain ⟨hin, rfl⟩ := h
    have hcomm : newRear - BitVec.ofNat 32 g.overflowBit - front =
        newRear - front - BitVec.ofNat 32 g.overflowBit := by
      rw [BitVec.sub_sub, BitVec.sub_sub, BitVec.add_comm]
    have hob : (BitVec.ofNat 32 g.overflowBit).toInt = Int.bmod g.overflowBit (2^32) :=
      BitVec.toInt_ofNat' _
    have heq : (newRear - BitVec.ofNat 32 g.overflowBit - front).toInt =
        (newRear - front).toInt - g.overflowBit := by
      rw [hcomm, BitVec.toInt_sub, hob, Int.sub_bmod_bmod, Int.bmod_eq_of_le] <;> omega
    rw [heq]
    exact hin
  · simp only [if_neg hw, Option.ite_none_right_eq_some, Option.some.injEq] at h
    obtain ⟨hin, rfl⟩ := h
    exact hin

/-! ### The calls one by one -/

variable {p : Pos}

theorem Core.filled (h : Core g t p) :
    (t.cblk.mRear - t.cblk.mFront).toInt = (p.rear : Int) - p.front := by
  have hP := g.frameCountP2_le
  have hF : g.mFrameCount ≤ g.mFrameCountP2 := g.frameCount_le
  have hle := h.rear_le
  rw [h.front, h.rear]
  exact Word.toInt_sub_ofNat h.front_le (by omega)

theorem Core.span_lt (h : Core g t p) : p.rear < p.front + 2^(g.log2P2 + 1) := by
  have hF := g.frameCount_lt
  have hrl := h.rear_le
  rw [← g.overflowBit_eq]
  omega

theorem low_ofNat (g : Geometry) (x : Nat) :
    (BitVec.ofNat 32 x &&& g.mask).toNat = x % 2^(g.log2P2 + 1) := by
  rw [g.mask_eq, Word.and_lowMask_toNat g.bits_le, BitVec.toNat_ofNat,
    Nat.mod_mod_of_dvd _ (pow_dvd_pow 2 g.bits_le)]

theorem Marks.low_eq {word : BitVec 32} {pos lo hi : Nat} (hm : Marks g word pos lo hi) :
    (word &&& g.mask).toNat = pos % 2^(g.log2P2 + 1) := by
  rw [g.mask_eq, Word.and_lowMask_toNat g.bits_le, hm.low]

theorem Core.flushInBlock_iff (h : Core g t p) (hp : t.FlushPending) :
    FlushInBlock g t ↔ Near g p.front p.flushAt := by
  have hm := h.flush hp
  have hle := hm.le
  have hspan := h.span_lt
  rw [FlushInBlock, Near, h.front, low_ofNat, hm.low_eq, Word.div_eq_iff_mod_le hm.ge (by omega)]

theorem Core.stopInBlock_iff (h : Core g t p) (hp : t.StopPending) :
    StopInBlock g t ↔ Near g p.stopAt p.rear := by
  have hm := h.stop hp
  have hge := hm.ge
  have hspan := h.span_lt
  rw [StopInBlock, Near, h.rear, low_ofNat, hm.low_eq, Word.div_eq_iff_mod_le hm.le (by omega)]

theorem clippedSize_le (g : Geometry) (size : Nat) : clippedSize g size ≤ g.mFrameCount := by
  simp only [clippedSize]
  split_ifs <;> omega

theorem clientObtainBuffer_spec (h : Core g t p) (n : Nat) :
    ∃ flags u, (t.clientObtainBuffer g n).2.2 =
        { t with cblk.mFlags := flags, client.mUnreleased := u } ∧
      p.rear + u ≤ p.front + g.mFrameCount ∧
      p.rear % g.mFrameCountP2 + u ≤ g.mFrameCountP2 := by
  have hfl := h.front_le
  have hrl := h.rear_le
  have hsz := h.size_le
  have hin : 0 ≤ (p.rear : Int) - p.front ∧ (p.rear : Int) - p.front ≤ g.mFrameCount := by omega
  have hidx : g.ringIndex t.cblk.mRear = p.rear % g.mFrameCountP2 := by
    rw [h.rear, g.ringIndex_ofNat]
  have hlt : p.rear % g.mFrameCountP2 < g.mFrameCountP2 := Nat.mod_lt _ (Nat.two_pow_pos _)
  -- on every error exit nothing stays obtained
  have hzero : p.rear + 0 ≤ p.front + g.mFrameCount ∧
      p.rear % g.mFrameCountP2 + 0 ≤ g.mFrameCountP2 := by omega
  have hup : ¬t.client.mIsShutdown = true := by simp [h.client_up]
  simp only [clientObtainBuffer, if_neg hup, h.filled, if_neg (not_not_intro hin), hidx]
  by_cases hinv : t.cblk.mFlags &&& CBLK_INVALID ≠ 0
  · rw [if_pos hinv]
    exact ⟨_, 0, rfl, hzero⟩
  by_cases hdis : t.cblk.mFlags &&& CBLK_DISABLED ≠ 0
  · rw [if_neg hinv, if_pos hdis]
    exact ⟨_, 0, rfl, hzero⟩
  rw [if_neg hinv, if_neg hdis]
  by_cases havail : 0 < (t.client.mBufferSizeInFrames : Int) - (p.rear - p.front)
  · rw [if_pos havail]
    exact ⟨_, _, rfl, by omega, by omega⟩
  · rw [if_neg havail]
    exact ⟨_, 0, rfl, hzero⟩

theorem Core.getRear (h : Core g t p) (hn : t.StopPending → Near g p.stopAt p.rear) :
    t.getRear g = BitVec.ofNat 32 (if t.cblk.mStop = t.server.mStopLast then p.rear else p.stopAt) := by
  have hrl := h.rear_le
  by_cases hs : t.cblk.mStop = t.server.mStopLast
  · simp only [Track.getRear, if_pos hs, h.rear]
  · simp only [Track.getRear, if_neg hs]
    rw [h.rear, h.front, stopLevel_eq (h.stop hs) (by omega) (hn hs), Option.getD_some]

/-- A stop never makes the pipe look corrupt. -/
theorem getRear_range (h : 0 ≤ (t.cblk.mRear - t.cblk.mFront).toInt ∧
      (t.cblk.mRear - t.cblk.mFront).toInt ≤ g.mFrameCount) :
    0 ≤ (t.getRear g - t.cblk.mFront).toInt ∧
      (t.getRear g - t.cblk.mFront).toInt ≤ g.mFrameCount := by
  simp only [Track.getRear]
  split
  · exact h
  · cases hl : stopLevel g t.cblk.mStop t.cblk.mRear t.cblk.mFront with
    | none => exact h
    | some l => exact stopLevel_range hl

theorem Core.getRear_range (h : Core g t p) :
    0 ≤ (t.getRear g - t.cblk.mFront).toInt ∧
      (t.getRear g - t.cblk.mFront).toInt ≤ g.mFrameCount := by
  have hfl := h.front_le
  have hrl := h.rear_le
  apply Track.getRear_range
  rw [h.filled]
  omega

theorem Core.framesReady (h : Core g t p) : (t.framesReady g).2 = t := by
  have hin := h.getRear_range
  simp only [Track.framesReady, h.server_up, if_neg (not_not_intro hin)]
  split_ifs <;> rfl

/-- What taking a pending flush does: the front jumps to the flush position. -/
theorem Core.flushBufferIfNeeded_eq (h : Core g t p) (hp : t.FlushPending)
    (hn : Near g p.front p.flushAt) :
    t.flushBufferIfNeeded g =
      { t with
        server.mFlush := t.cblk.mFlush
        cblk.mFront := BitVec.ofNat 32 p.flushAt
        cblk.mFutex := t.cblk.mFutex ||| CBLK_FUTEX_WAKE
        server.mFlushed := t.server.mFlushed + (p.flushAt - p.front) } := by
  have hm := h.flush hp
  have hF := g.frameCount_lt
  have hP := g.frameCountP2_le
  have hob := g.overflowBit_eq
  have hbit : g.overflowBit = 2 * g.mFrameCountP2 := rfl
  have hrl := h.rear_le
  have hge := hm.ge
  have hle := hm.le
  have hfront : flushedFront g t.cblk.mFlush t.cblk.mRear t.cblk.mFront =
      BitVec.ofNat 32 p.flushAt := by
    rw [h.rear, h.front]
    exact flushedFront_eq hm (by omega) hn
  have hsub : BitVec.ofNat 32 p.flushAt - BitVec.ofNat 32 p.front =
      BitVec.ofNat 32 (p.flushAt - p.front) := by
    rw [BitVec.sub_eq_iff_eq_add, ← BitVec.ofNat_add, Nat.sub_add_cancel hge]
  have hcount : ((BitVec.ofNat 32 p.flushAt - t.cblk.mFront) &&& g.mask).toNat =
      p.flushAt - p.front := by
    rw [h.front, hsub, g.mask_eq, Word.and_lowMask_toNat g.bits_le, BitVec.toNat_ofNat, ← hob,
      Nat.mod_eq_of_lt (by omega : p.flushAt - p.front < 2^32), Nat.mod_eq_of_lt (by omega)]
  simp only [Track.flushBufferIfNeeded, if_neg hp, hfront, hcount]

/-- The positions after the server has looked for a flush. -/
def Pos.take (t : Track α) (p : Pos) : Pos :=
  if t.cblk.mFlush = t.server.mFlush then p else { p with front := p.flushAt }

theorem Pos.take_rear (t : Track α) (p : Pos) : (p.take t).rear = p.rear := by
  simp only [Pos.take]
  split <;> rfl

theorem Pos.take_stopAt (t : Track α) (p : Pos) : (p.take t).stopAt = p.stopAt := by
  simp only [Pos.take]
  split <;> rfl

/-- Taking a flush keeps the positions in order; what the server held is not spoken for. -/
theorem Core.takeFlush (h : Core g t p) (hn : t.FlushPending → Near g p.front p.flushAt) :
    Core g (t.flushBufferIfNeeded g) (p.take t) := by
  by_cases hp : t.cblk.mFlush = t.server.mFlush
  · simpa only [Track.flushBufferIfNeeded, Pos.take, if_pos hp] using h
  · have hm := h.flush hp
    have hge := hm.ge
    have hrl := h.rear_le
    rw [h.flushBufferIfNeeded_eq hp (hn hp), Pos.take, if_neg hp]
    exact { h with
      front := rfl
      front_le := hm.le
      rear_le := by simp only; omega
      flush := fun hne => absurd rfl hne
      stop := fun hs => ⟨(h.stop hs).low, h.flush_le_stop hp hs, (h.stop hs).le⟩
      flush_le_stop := fun hne => absurd rfl hne }

theorem Core.flushBufferIfNeeded (h : Core g t p) (hr : t.FlushPending → FlushInBlock g t) :
    Core g (t.flushBufferIfNeeded g) (p.take t) :=
  h.takeFlush fun hp => (h.flushInBlock_iff hp).mp (hr hp)

theorem flushBufferIfNeeded_no_flush (g : Geometry) (t : Track α) :
    ¬(t.flushBufferIfNeeded g).FlushPending := by
  intro hne
  simp only [FlushPending, Track.flushBufferIfNeeded] at hne
  split at hne
  · contradiction
  · exact hne rfl

theorem flushBufferIfNeeded_stop (g : Geometry) (t : Track α) :
    (t.flushBufferIfNeeded g).cblk.mStop = t.cblk.mStop ∧
      (t.flushBufferIfNeeded g).server.mStopLast = t.server.mStopLast := by
  simp only [Track.flushBufferIfNeeded]
  split <;> exact ⟨rfl, rfl⟩

theorem serverObtainBuffer_spec (h : Core g t p) (hr : Rebasable g t) (n : Nat) :
    ∃ avail u, (t.serverObtainBuffer g n false).2.2 =
        { t.flushBufferIfNeeded g with
          server.mAvailToClient := avail
          server.mUnreleased := u } ∧
      (p.take t).front + u ≤ (if t.cblk.mStop = t.server.mStopLast then p.rear else p.stopAt) ∧
      (p.take t).front % g.mFrameCountP2 + u ≤ g.mFrameCountP2 := by
  have hc := h.flushBufferIfNeeded hr.1
  obtain ⟨hstop, hlast⟩ := flushBufferIfNeeded_stop g t
  have hrear := Pos.take_rear t p
  have hstopAt := Pos.take_stopAt t p
  have hget := hc.getRear (by
    intro hs
    have hs' : t.StopPending := by rwa [StopPending, ← hstop, ← hlast]
    rw [hrear, hstopAt]
    exact (h.stopInBlock_iff hs').mp (hr.2 hs'))
  rw [hstop, hlast, hrear, hstopAt] at hget
  have hin := hc.getRear_range
  have hup : ¬t.server.mIsShutdown = true := by simp [h.server_up]
  have hidx : g.ringIndex (t.flushBufferIfNeeded g).cblk.mFront =
      (p.take t).front % g.mFrameCountP2 := by
    rw [hc.front, g.ringIndex_ofNat]
  have hlt : (p.take t).front % g.mFrameCountP2 < g.mFrameCountP2 :=
    Nat.mod_lt _ (Nat.two_pow_pos _)
  -- the limit is not behind the front, so the filled count is a difference of positions
  have hlim : (p.take t).front ≤
        (if t.cblk.mStop = t.server.mStopLast then p.rear else p.stopAt) ∧
      (if t.cblk.mStop = t.server.mStopLast then p.rear else p.stopAt) ≤ p.rear := by
    have hfl := hc.front_le
    split
    · omega
    · next hs =>
      have hm := hc.stop (by rwa [StopPending, hstop, hlast])
      rw [hstopAt, hrear] at hm
      exact ⟨hm.ge, hm.le⟩
  have hfill : ((t.flushBufferIfNeeded g).getRear g - (t.flushBufferIfNeeded g).cblk.mFront).toInt =
      ((if t.cblk.mStop = t.server.mStopLast then p.rear else p.stopAt : Nat) : Int) -
        (p.take t).front := by
    have hP := g.frameCountP2_le
    have hF : g.mFrameCount ≤ g.mFrameCountP2 := g.frameCount_le
    have hrl := hc.rear_le
    rw [hget, hc.front]
    exact Word.toInt_sub_ofNat hlim.1 (by omega)
  rw [hfill] at hin
  simp only [serverObtainBuffer, if_neg hup, hfill, if_neg (not_not_intro hin), hidx]
  exact ⟨_, _, rfl, by omega, by omega⟩

theorem nextRequest_eq_stamp (g : Geometry) (word rear : BitVec 32) :
    nextRequest g word rear = Word.stamp (g.log2P2 + 1) word rear := by
  rw [nextRequest, g.mask_eq, g.overflowBit_eq, Word.stamp]

theorem Core.marks_nextRequest (h : Core g t p) (word : BitVec 32) :
    Marks g (nextRequest g word t.cblk.mRear) p.rear p.front p.rear := by
  refine ⟨?_, h.front_le, le_rfl⟩
  rw [nextRequest_eq_stamp, Word.stamp_mod g.bits_le, h.rear, BitVec.toNat_ofNat,
    Nat.mod_mod_of_dvd _ (pow_dvd_pow 2 g.bits_le)]

theorem Core.serverReleaseBuffer_eq (h : Core g t p) (hh : Within t p) {n : Nat}
    (hn : n ≤ t.server.mUnreleased) :
    ∃ server futex, t.serverReleaseBuffer g n = some { t with
      server.mUnreleased := t.server.mUnreleased - n
      server.mReleased := t.server.mReleased + n
      cblk.mFront := BitVec.ofNat 32 (p.front + n)
      cblk.mServer := server
      cblk.mFutex := futex } := by
  have hle := hh.le
  have hrl := h.rear_le
  by_cases h0 : n = 0
  · subst h0
    refine ⟨t.cblk.mServer, t.cblk.mFutex, ?_⟩
    rw [serverReleaseBuffer, if_pos (.inl rfl), Nat.add_zero, ← h.front]
    rfl
  · have hup : ¬(n = 0 ∨ t.server.mIsShutdown = true) := by simp [h0, h.server_up]
    have hok : n ≤ t.server.mUnreleased ∧ t.server.mUnreleased ≤ g.mFrameCount := ⟨hn, by omega⟩
    have hfront : BitVec.ofNat 32 n + t.cblk.mFront = BitVec.ofNat 32 (p.front + n) := by
      rw [h.front, ← BitVec.ofNat_add, Nat.add_comm]
    rw [serverReleaseBuffer, if_neg hup, if_neg (not_not_intro hok), hfront]
    exact ⟨_, _, rfl⟩

theorem Core.clientReleaseBuffer_eq (h : Core g t p) {n : Nat} (hn : n ≤ t.client.mUnreleased) :
    t.clientReleaseBuffer g n = some { t with
      client.mUnreleased := t.client.mUnreleased - n
      cblk.mRear := BitVec.ofNat 32 (p.rear + n) } := by
  have hfl := h.front_le
  have hrl := h.rear_le
  by_cases h0 : n = 0
  · subst h0
    rw [clientReleaseBuffer, if_pos (.inl rfl), Nat.add_zero, ← h.rear]
    rfl
  · have hup : ¬(n = 0 ∨ t.client.mIsShutdown = true) := by simp [h0, h.client_up]
    have hok : n ≤ t.client.mUnreleased ∧ t.client.mUnreleased ≤ g.mFrameCount := ⟨hn, by omega⟩
    have hrear : BitVec.ofNat 32 n + t.cblk.mRear = BitVec.ofNat 32 (p.rear + n) := by
      rw [h.rear, ← BitVec.ofNat_add, Nat.add_comm]
    rw [clientReleaseBuffer, if_neg hup, if_neg (not_not_intro hok), hrear]

/-- Releasing part of a contiguous chunk leaves the rest contiguous. -/
theorem chunk_advance {P x u n : Nat} (hP : 0 < P) (h : x % P + u ≤ P) (hn : n ≤ u) :
    (x + n) % P + (u - n) ≤ P := by
  have hx := Nat.div_add_mod x P
  rcases Nat.lt_or_ge (x % P + n) P with hlt | hge
  · rw [Nat.add_mod, Nat.mod_eq_of_lt (by omega : n < P), Nat.mod_eq_of_lt hlt]
    omega
  · have hlt : (x + n) % P < P := Nat.mod_lt _ hP
    omega

end Track

end MediaFramework.Audio
