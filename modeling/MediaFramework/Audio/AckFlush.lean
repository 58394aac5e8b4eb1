import MediaFramework.Audio.StreamingRuns

/-!
# Acknowledging a flush

`ServerProxy::obtainBuffer` with `ackFlush` takes a pending flush but leaves `mUnreleased` as it
is, so that a buffer obtained before can still be released. The front has then moved to the flush
position, and the frames of the old buffer are released from there on.
-/

namespace MediaFramework.Audio

/-- A call of either proxy, or an `obtainBuffer` of the server with `ackFlush`. -/
inductive AckCall (α : Type*)
  | call (c : Call α)
  | ackFlush (frameCount : Nat)

namespace Track

variable {α : Type*} {g : Geometry} {t t' : Track α} {p : Pos}

def ackStep (g : Geometry) (t : Track α) : AckCall α → Option (Track α)
  | .call c => t.step g c
  | .ackFlush n => if n = 0 then none else some (t.serverObtainBuffer g n true).2.2

def ackMachine (g : Geometry) (mBuffers : Nat → α) : Machine (Track α) (AckCall α) :=
  ⟨fresh g mBuffers, ackStep g⟩

def AckPermitted (t : Track α) : AckCall α → Prop
  | .call c => t.Permitted c
  | .ackFlush n => 0 < n

/-- How many frames a word is past the latest flush. -/
def pastFlush (g : Geometry) (t : Track α) (word : BitVec 32) : Nat :=
  ((word - t.cblk.mFlush) &&& g.mask).toNat

/-- There is no flush to take, or the server holds nothing, or no more than the client has
released since the flush. -/
def AckSafe (g : Geometry) (t : Track α) : Prop :=
  t.cblk.mFlush = t.server.mFlush ∨ t.server.mUnreleased = 0 ∨
    t.server.mUnreleased ≤ pastFlush g t t.cblk.mRear ∧ FlushInBlock g t

/-- The calls that keep the positions in order. An acknowledged flush may also not put what the
server holds past a pending stop. -/
def AckSound (g : Geometry) (t : Track α) : AckCall α → Prop
  | .call c => Sound g t c
  | .ackFlush _ => t.FlushPending → FlushInBlock g t ∧
      t.server.mUnreleased ≤ pastFlush g t t.cblk.mRear ∧
      (t.StopPending → t.server.mUnreleased ≤ pastFlush g t t.cblk.mStop)

/-- The calls between an acknowledged flush and the next look for one. -/
def Draining : Call α → Prop
  | .serverObtainBuffer _ | .flushBufferIfNeeded => False
  | _ => True

instance (g : Geometry) (t : Track α) : Decidable (AckSafe g t) :=
  inferInstanceAs (Decidable (_ ∨ _ ∨ _ ∧ _))

instance (t : Track α) : (c : AckCall α) → Decidable (t.AckPermitted c)
  | .call c => inferInstanceAs (Decidable (t.Permitted c))
  | .ackFlush n => inferInstanceAs (Decidable (0 < n))

instance (g : Geometry) (t : Track α) : (c : AckCall α) → Decidable (AckSound g t c)
  | .call c => inferInstanceAs (Decidable (Sound g t c))
  | .ackFlush _ => inferInstanceAs (Decidable (_ → _ ∧ _ ∧ _))

instance : (c : Call α) → Decidable (Draining c)
  | .serverObtainBuffer _ | .flushBufferIfNeeded => inferInstanceAs (Decidable False)
  | .clientObtainBuffer _ | .clientWrite _ _ | .clientReleaseBuffer _ | .setBufferSizeInFrames _
  | .flush | .stop | .start | .serverReleaseBuffer _ | .framesReady =>
    inferInstanceAs (Decidable True)

/-! ### An obtain never corrupts an intact track -/

theorem flushedFront_range (flush rear front : BitVec 32) :
    0 ≤ (rear - flushedFront g flush rear front).toInt ∧
      (rear - flushedFront g flush rear front).toInt ≤ g.mFrameCount := by
  have hF := g.frameCount_lt
  have hP := g.frameCountP2_le
  have hbit : g.overflowBit = 2 * g.mFrameCountP2 := rfl
  have hfull : 0 ≤ (rear - rear).toInt ∧ (rear - rear).toInt ≤ g.mFrameCount := by
    rw [BitVec.sub_self, BitVec.toInt_zero]
    omega
  simp only [flushedFront]
  generalize (front &&& ~~~g.mask) ||| (flush &&& g.mask) = newFront
  by_cases hw : (g.overflowBit : Int) ≤ (rear - newFront).toInt
  · simp only [if_pos hw]
    split
    · next hin =>
      have hcomm : rear - (newFront + BitVec.ofNat 32 g.overflowBit) =
          rear - newFront - BitVec.ofNat 32 g.overflowBit := (BitVec.sub_sub _ _ _).symm
      have hob : (BitVec.ofNat 32 g.overflowBit).toInt = Int.bmod g.overflowBit (2^32) :=
        BitVec.toInt_ofNat' _
      have hlt := BitVec.toInt_lt (x := rear - newFront)
      rw [hcomm, BitVec.toInt_sub, hob, Int.sub_bmod_bmod, Int.bmod_eq_of_le (by omega) (by omega)]
      exact hin
    · exact hfull
  · simp only [if_neg hw]
    split
    · next hin => exact hin
    · exact hfull

theorem Intact.flushBufferIfNeeded (h : Intact g t) : Intact g (t.flushBufferIfNeeded g) := by
  rw [Track.flushBufferIfNeeded]
  split
  · exact h
  · exact ⟨flushedFront_range _ _ _, h.2⟩

theorem flushBufferIfNeeded_unreleased (g : Geometry) (t : Track α) :
    (t.flushBufferIfNeeded g).server.mUnreleased = t.server.mUnreleased := by
  rw [Track.flushBufferIfNeeded]
  split <;> rfl

/-- What an obtain of the server does to an intact track. -/
theorem Intact.serverObtainBuffer_eq (h : Intact g t) (n : Nat) (ackFlush : Bool) :
    ∃ avail u, (t.serverObtainBuffer g n ackFlush).2.2 =
        { t.flushBufferIfNeeded g with
          server.mAvailToClient := avail
          server.mUnreleased := u } ∧
      (ackFlush = true → u = t.server.mUnreleased) := by
  have hup : ¬t.server.mIsShutdown = true := by simp [h.2.2]
  have hin := getRear_range h.flushBufferIfNeeded.1
  simp only [serverObtainBuffer, if_neg hup, if_neg (not_not_intro hin)]
  cases ackFlush with
  | true => exact ⟨_, _, rfl, fun _ => flushBufferIfNeeded_unreleased g t⟩
  | false => exact ⟨_, _, rfl, fun h => by cases h⟩

theorem Intact.serverObtainBuffer (h : Intact g t) (n : Nat) (ackFlush : Bool) :
    Intact g (t.serverObtainBuffer g n ackFlush).2.2 := by
  obtain ⟨avail, u, heq, -⟩ := h.serverObtainBuffer_eq n ackFlush
  rw [heq]
  exact h.flushBufferIfNeeded

theorem Intact.clientObtainBuffer (h : Intact g t) (n : Nat) :
    Intact g (t.clientObtainBuffer g n).2.2 := by
  have hup : ¬t.client.mIsShutdown = true := by simp [h.2.1]
  simp only [Track.clientObtainBuffer, if_neg hup, if_neg (not_not_intro h.1)]
  split_ifs <;> exact h

theorem Intact.framesReady (h : Intact g t) : (t.framesReady g).2 = t := by
  have hin := getRear_range h.1
  simp only [Track.framesReady, h.2.2, if_neg (not_not_intro hin)]
  split_ifs <;> rfl

/-! ### Where a flush puts the front -/

/-- A flush position in the next block is not found, and the whole pipe is flushed. -/
theorem flushedFront_far {f r l : Nat} {flush : BitVec 32} (hm : Marks g flush l f r)
    (hr : r ≤ f + g.mFrameCount) (hn : ¬Near g f l) :
    flushedFront g flush (BitVec.ofNat 32 r) (BitVec.ofNat 32 f) = BitVec.ofNat 32 r := by
  obtain ⟨hlow, hfl, hlr⟩ := hm
  have hF := g.frameCount_lt
  have hP2 : g.mFrameCount ≤ g.mFrameCountP2 := g.frameCount_le
  have hob := g.overflowBit_eq
  simp only [Near, not_or, not_lt] at hn
  obtain ⟨hlarge, hblock⟩ := hn
  have hlog : g.log2P2 + 1 = 31 := congrArg (· + 1) (Nat.le_antisymm g.log2P2_le hlarge)
  have hpow : 2^31 = 2147483648 := by decide
  rw [hlog] at hob hblock
  have hsplice : (BitVec.ofNat 32 f &&& ~~~g.mask) ||| (flush &&& g.mask) =
      BitVec.ofNat 32 (Word.rebase (g.log2P2 + 1) f l) := by
    rw [g.mask_eq]
    exact Word.splice_ofNat g.bits_le hlow
  have hspan : l < f + 2^31 := by omega
  have hd := (Word.div_eq_or_succ (m := 31) hfl hspan).resolve_left
    fun heq => hblock heq.symm
  have hb := Word.rebase_add_of_div_add_one_eq hd.symm
  rw [hlog] at hsplice
  rw [hpow] at hob hb
  -- half way round the rear seems to lie behind
  have hnw : ¬(g.overflowBit : Int) ≤ (r : Int) - (l + 2147483648 : Nat) := by omega
  have hout : ¬(0 ≤ (r : Int) - (l + 2147483648 : Nat) ∧
      (r : Int) - (l + 2147483648 : Nat) ≤ g.mFrameCount) := by omega
  have hword : BitVec.ofNat 32 (Word.rebase 31 f l) = BitVec.ofNat 32 (l + 2147483648) := by
    apply BitVec.eq_of_toNat_eq
    rw [BitVec.toNat_ofNat, BitVec.toNat_ofNat]
    omega
  have hfill : (BitVec.ofNat 32 r - BitVec.ofNat 32 (l + 2147483648)).toInt =
      (r : Int) - (l + 2147483648 : Nat) := Word.toInt_sub_ofNat_of_fits (by omega)
  simp only [flushedFront, hsplice, hword, hfill, if_neg hnw, if_neg hout]

theorem Core.pastFlush_rear (h : Core g t p) (hp : t.FlushPending) :
    pastFlush g t t.cblk.mRear = p.rear - p.flushAt := by
  have hm := h.flush hp
  have hge := hm.ge
  have hspan := h.span_lt
  rw [pastFlush, g.mask_eq]
  refine Word.sub_and_lowMask_toNat g.bits_le ?_ hm.low hm.le (by omega)
  rw [h.rear, BitVec.toNat_ofNat, Nat.mod_mod_of_dvd _ (pow_dvd_pow 2 g.bits_le)]

theorem Core.pastFlush_stop (h : Core g t p) (hp : t.FlushPending) (hs : t.StopPending) :
    pastFlush g t t.cblk.mStop = p.stopAt - p.flushAt := by
  have hm := h.flush hp
  have hge := hm.ge
  have hle := (h.stop hs).le
  have hspan := h.span_lt
  rw [pastFlush, g.mask_eq]
  exact Word.sub_and_lowMask_toNat g.bits_le (h.stop hs).low hm.low (h.flush_le_stop hp hs)
    (by omega)

/-- The new front, and whether what the server holds still fits before the rear. -/
theorem Kept.flushedTo (h : Kept g t p) :
    ∃ x, (t.flushBufferIfNeeded g).cblk.mFront = BitVec.ofNat 32 x ∧ p.front ≤ x ∧ x ≤ p.rear ∧
      (x + t.server.mUnreleased ≤ p.rear ↔ AckSafe g t) := by
  have hrl := h.core.rear_le
  by_cases hp : t.cblk.mFlush = t.server.mFlush
  · refine ⟨p.front, ?_, le_rfl, h.core.front_le, iff_of_true h.within.le (.inl hp)⟩
    rw [Track.flushBufferIfNeeded, if_pos hp]
    exact h.core.front
  have hm := h.core.flush hp
  have hle := hm.le
  have hblock := h.core.flushInBlock_iff hp
  rw [AckSafe, or_iff_right hp, h.core.pastFlush_rear hp, hblock]
  simp only [Track.flushBufferIfNeeded, if_neg hp, h.core.front, h.core.rear]
  by_cases hn : Near g p.front p.flushAt
  · refine ⟨p.flushAt, flushedFront_eq hm (by omega) hn, hm.ge, hm.le, ?_⟩
    rw [and_iff_left hn]
    omega
  · refine ⟨p.rear, flushedFront_far hm (by omega) hn, h.core.front_le, le_rfl, ?_⟩
    rw [or_iff_left fun hx => hn hx.2]
    omega

/-- The positions after the server has looked for a flush, with the read limit lifted. -/
theorem Core.jump (h : Core g t p) {x : Nat}
    (hfront : (t.flushBufferIfNeeded g).cblk.mFront = BitVec.ofNat 32 x) (hge : p.front ≤ x)
    (hle : x ≤ p.rear) : Core g (t.flushBufferIfNeeded g).start { p with front := x } := by
  have hrl := h.rear_le
  by_cases hp : t.cblk.mFlush = t.server.mFlush
  · rw [Track.flushBufferIfNeeded, if_pos hp] at hfront ⊢
    exact { h with
      front := hfront
      front_le := hle
      rear_le := by simp only [Track.start]; omega
      flush := fun hf => absurd hp hf
      stop := fun hs => absurd rfl hs
      flush_le_stop := fun hf => absurd hp hf }
  · rw [Track.flushBufferIfNeeded, if_neg hp] at hfront ⊢
    exact { h with
      front := hfront
      front_le := hle
      rear_le := by simp only [Track.start]; omega
      flush := fun hf => absurd rfl hf
      stop := fun hs => absurd rfl hs
      flush_le_stop := fun hf => absurd rfl hf }

/-- A sound acknowledgement keeps the order. -/
theorem Kept.ackFlush (h : Kept g t p) {n : Nat} (hs : AckSound g t (.ackFlush n)) :
    Kept g (t.serverObtainBuffer g n true).2.2 (p.take t) := by
  obtain ⟨avail, u, heq, hu⟩ := h.core.intact.serverObtainBuffer_eq n true
  obtain rfl := hu rfl
  have hc := h.core.takeFlush fun hp => (h.core.flushInBlock_iff hp).mp (hs hp).1
  rw [heq]
  refine ⟨{ hc with }, ?_⟩
  by_cases hp : t.cblk.mFlush = t.server.mFlush
  · rw [Track.flushBufferIfNeeded, Pos.take, if_pos hp, if_pos hp]
    exact { h.within with }
  · obtain ⟨-, hrear, hstop⟩ := hs hp
    rw [h.core.pastFlush_rear hp] at hrear
    have hle := (h.core.flush hp).le
    rw [Track.flushBufferIfNeeded, Pos.take, if_neg hp, if_neg hp]
    refine ⟨?_, fun hf => absurd rfl hf, fun hst => ?_⟩
    · show p.flushAt + t.server.mUnreleased ≤ p.rear
      omega
    · have hst' := hstop hst
      have hfs := h.core.flush_le_stop hp hst
      rw [h.core.pastFlush_stop hp hst] at hst'
      show p.flushAt + t.server.mUnreleased ≤ p.stopAt
      omega

/-! ### Draining the old buffer -/

theorem clientObtainBuffer_start (g : Geometry) (t : Track α) (n : Nat) :
    (t.start.clientObtainBuffer g n).2.2 = (t.clientObtainBuffer g n).2.2.start := by
  obtain ⟨cblk, client, server, mBuffers⟩ := t
  rw [Track.start, Track.clientObtainBuffer, Track.clientObtainBuffer]
  dsimp only
  by_cases hdown : client.mIsShutdown = true
  · rw [if_pos hdown, if_pos hdown]
    rfl
  rw [if_neg hdown, if_neg hdown]
  by_cases hinv : cblk.mFlags &&& CBLK_INVALID ≠ 0
  · rw [if_pos hinv, if_pos hinv]
    rfl
  rw [if_neg hinv, if_neg hinv]
  by_cases hdis : cblk.mFlags &&& CBLK_DISABLED ≠ 0
  · rw [if_pos hdis, if_pos hdis]
    rfl
  rw [if_neg hdis, if_neg hdis]
  by_cases hin : ¬(0 ≤ (cblk.mRear - cblk.mFront).toInt ∧
      (cblk.mRear - cblk.mFront).toInt ≤ g.mFrameCount)
  · rw [if_pos hin, if_pos hin]
    rfl
  rw [if_neg hin, if_neg hin]
  by_cases havail : 0 < (client.mBufferSizeInFrames : Int) - (cblk.mRear - cblk.mFront).toInt
  · rw [if_pos havail, if_pos havail]
    rfl
  · rw [if_neg havail, if_neg havail]
    rfl

/-- While it drains, a pending stop makes no difference. -/
theorem step_start (hi : Intact g t) {c : Call α} (hc : Draining c) (hs : t.step g c = some t') :
    ∃ s, t.start.step g c = some s ∧ s.start = t'.start := by
  cases c with
  | clientObtainBuffer n =>
    rw [Track.step] at hs ⊢
    split at hs
    · cases hs
    · next hn =>
      cases hs
      rw [if_neg hn, clientObtainBuffer_start]
      exact ⟨_, rfl, rfl⟩
  | clientReleaseBuffer n =>
    simp only [Track.step, Track.clientReleaseBuffer] at hs ⊢
    split at hs
    · next hn =>
      cases hs
      exact ⟨_, if_pos hn, rfl⟩
    split at hs
    · cases hs
    · next hn hok =>
      cases hs
      exact ⟨_, (if_neg hn).trans (if_neg hok), rfl⟩
  | serverReleaseBuffer n =>
    simp only [Track.step, Track.serverReleaseBuffer] at hs ⊢
    split at hs
    · next hn =>
      cases hs
      exact ⟨_, if_pos hn, rfl⟩
    split at hs
    · cases hs
    · next hn hok =>
      cases hs
      exact ⟨_, (if_neg hn).trans (if_neg hok), rfl⟩
  | framesReady =>
    have hi' : Intact g t.start := hi
    rw [Track.step, hi.framesReady] at hs
    cases hs
    exact ⟨_, rfl, by rw [hi'.framesReady]; rfl⟩
  | serverObtainBuffer n => exact hc.elim
  | flushBufferIfNeeded => exact hc.elim
  | clientWrite i frame => cases hs; exact ⟨_, rfl, rfl⟩
  | setBufferSizeInFrames size => cases hs; exact ⟨_, rfl, rfl⟩
  | flush => cases hs; exact ⟨_, rfl, rfl⟩
  | stop => cases hs; exact ⟨_, rfl, rfl⟩
  | start => cases hs; exact ⟨_, rfl, rfl⟩

theorem permitted_start {c : Call α} (hp : t.Permitted c) : t.start.Permitted c := by
  cases c <;> exact hp

theorem sound_of_draining {c : Call α} (hc : Draining c) : Sound g t c := by
  cases c <;> trivial

/-- The states that the old buffer is drained in, from a state on. -/
def drain (g : Geometry) (t : Track α) : Machine (Track α) (Call α) := ⟨t, step g⟩

theorem Kept.drain (h : Kept g t.start p)
    (hr : (drain g t).Run (fun t c => t.Permitted c ∧ Draining c) t') :
    ∃ p, Kept g t'.start p := by
  refine Machine.Run.invariant (I := fun t => ∃ p, Kept g t.start p) ⟨p, h⟩ ?_ hr
  rintro t c t' ⟨p, h⟩ ⟨hp, hc⟩ hs
  have hi : Intact g t := h.core.intact
  obtain ⟨s, hs', heq⟩ := step_start hi hc hs
  obtain ⟨s', hs'', hkept⟩ := h.step (permitted_start hp) (sound_of_draining hc)
  obtain rfl : s' = s := Option.some.inj (hs''.symm.trans hs')
  rw [← heq]
  exact ⟨_, hkept.start⟩

/-! ### Runs with acknowledged flushes -/

theorem Kept.of_run {mBuffers : Nat → α}
    (hr : (ackMachine g mBuffers).Run (fun t c => t.AckPermitted c ∧ AckSound g t c) t) :
    ∃ p, Kept g t p := by
  refine Machine.Run.invariant (I := fun t => ∃ p, Kept g t p)
    ⟨_, (Inv.fresh g mBuffers).kept⟩ ?_ hr
  rintro t c t' ⟨p, h⟩ ⟨hp, hs⟩ hstep
  cases c with
  | call c =>
    obtain ⟨t'', heq, h'⟩ := h.step hp hs
    obtain rfl : t'' = t' := Option.some.inj (heq.symm.trans hstep)
    exact ⟨_, h'⟩
  | ackFlush n =>
    simp only [ackMachine, ackStep, if_neg (Nat.ne_of_gt hp)] at hstep
    cases hstep
    exact ⟨_, h.ackFlush hs⟩

/-- Everything held is released at once. -/
theorem Kept.overrun (h : Kept g t p) {x : Nat} (hu : t.server.mUnreleased ≠ 0)
    (hle : x ≤ p.rear) (hover : p.rear < x + t.server.mUnreleased) {s : Track α}
    (hfront : s.cblk.mFront = BitVec.ofNat 32 x) (hrear : s.cblk.mRear = t.cblk.mRear)
    (hserver : s.server.mUnreleased = t.server.mUnreleased) (hs : s.server.mIsShutdown = false) :
    ∃ s', s.step g (.serverReleaseBuffer t.server.mUnreleased) = some s' ∧ ¬Intact g s' := by
  have hrl := h.core.rear_le
  have hwl := h.within.le
  have hP := g.frameCountP2_le
  have hF : g.mFrameCount ≤ g.mFrameCountP2 := g.frameCount_le
  have hgo : ¬(t.server.mUnreleased = 0 ∨ s.server.mIsShutdown = true) := by simp [hu, hs]
  have hok : t.server.mUnreleased ≤ s.server.mUnreleased ∧
      s.server.mUnreleased ≤ g.mFrameCount := by omega
  obtain ⟨s', hstep, hfront', hrear'⟩ :
      ∃ s', s.step g (.serverReleaseBuffer t.server.mUnreleased) = some s' ∧
        s'.cblk.mFront = BitVec.ofNat 32 t.server.mUnreleased + s.cblk.mFront ∧
        s'.cblk.mRear = s.cblk.mRear := by
    rw [Track.step, Track.serverReleaseBuffer, if_neg hgo, if_neg (not_not_intro hok)]
    exact ⟨_, rfl, rfl, rfl⟩
  refine ⟨s', hstep, fun hi => ?_⟩
  have hfill := hi.1.1
  rw [hfront', hrear', hfront, hrear, h.core.rear, ← BitVec.ofNat_add,
    Word.toInt_sub_ofNat_of_fits (by omega)] at hfill
  omega

/-- In every state that permitted, sound calls lead to: once a flush is acknowledged the old
buffer can be released in any chunks, among any calls of the client, and neither the fill level
nor an obtain that follows shuts the track down, exactly if the acknowledgement is safe. -/
theorem ackFlush_intact_iff {mBuffers : Nat → α}
    (hr : (ackMachine g mBuffers).Run (fun t c => t.AckPermitted c ∧ AckSound g t c) t) {n : Nat}
    (hack : ackStep g t (.ackFlush n) = some t') :
    (∀ s, (drain g t').Run (fun t c => t.Permitted c ∧ Draining c) s →
        Intact g s ∧ (∀ k ack, Intact g (s.serverObtainBuffer g k ack).2.2) ∧
          ∀ k, Intact g (s.clientObtainBuffer g k).2.2) ↔
      AckSafe g t := by
  obtain ⟨p, h⟩ := Kept.of_run hr
  have hi := h.core.intact
  obtain ⟨x, hfront, hge, hle, hsafe⟩ := h.flushedTo
  obtain ⟨avail, u, heq, hu⟩ := hi.serverObtainBuffer_eq n true
  obtain rfl := hu rfl
  simp only [ackStep, Option.ite_none_left_eq_some, Option.some.injEq] at hack
  obtain ⟨-, rfl⟩ := hack
  rw [heq, ← hsafe]
  constructor
  · intro hall
    by_contra hover
    obtain ⟨s', hs', hbad⟩ := h.overrun (by omega) hle (by omega)
      (s := { t.flushBufferIfNeeded g with
        server.mAvailToClient := avail
        server.mUnreleased := t.server.mUnreleased }) hfront
      (by rw [Track.flushBufferIfNeeded]; split <;> rfl) rfl hi.flushBufferIfNeeded.2.2
    refine hbad (hall s' (Machine.Run.init.step (a := .serverReleaseBuffer t.server.mUnreleased)
      ⟨?_, ?_⟩ hs')).1
    · exact le_refl t.server.mUnreleased
    · trivial
  · intro hfits s hs
    have hj := h.core.jump hfront hge hle
    have hkept : Kept g (Track.start { t.flushBufferIfNeeded g with
        server.mAvailToClient := avail
        server.mUnreleased := t.server.mUnreleased }) { p with front := x } :=
      ⟨{ hj with }, hfits, fun hf => absurd hf (flushBufferIfNeeded_no_flush g t),
        fun hst => absurd rfl hst⟩
    obtain ⟨p', h'⟩ := hkept.drain hs
    have hs' : Intact g s := h'.core.intact
    exact ⟨hs', hs'.serverObtainBuffer, hs'.clientObtainBuffer⟩

def twoFrames : Geometry := ⟨2, 1, by decide, by decide, by decide⟩

/-- The client has written one frame since its flush, and the server holds one. -/
theorem ackFlush_intact_iff_twoFrames :
    ∃ t t' : Track Unit,
      (ackMachine twoFrames fun _ => ()).Run
        (fun t c => t.AckPermitted c ∧ AckSound twoFrames t c) t ∧
      t.FlushPending ∧ t.server.mUnreleased = 1 ∧
      ackStep twoFrames t (.ackFlush 1) = some t' ∧
      ∀ s, (drain twoFrames t').Run (fun t c => t.Permitted c ∧ Draining c) s →
        Intact twoFrames s := by
  have hr := Machine.Run.of_exec (ackMachine twoFrames fun _ => ())
    (fun t c => t.AckPermitted c ∧ AckSound twoFrames t c)
    [.call (.clientObtainBuffer 1), .call (.clientReleaseBuffer 1), .call (.serverObtainBuffer 1),
      .call .flush, .call (.clientObtainBuffer 1), .call (.clientReleaseBuffer 1)] (by decide)
  refine ⟨_, _, hr, by decide, by decide, rfl, fun s hs => ?_⟩
  exact ((ackFlush_intact_iff (n := 1) hr rfl).mpr (by decide) s hs).1

/-- The client flushes the only frame there is while the server holds it: released after the
acknowledgement it takes the front past the rear, and the next obtain shuts the server down. -/
theorem ackFlush_overruns :
    ∃ t t₁ t₂ t₃ : Track Unit,
      (ackMachine oneFrame fun _ => ()).Run (fun t c => t.AckPermitted c ∧ AckSound oneFrame t c) t ∧
      t.server.mUnreleased = 1 ∧ t.FlushPending ∧
      ackStep oneFrame t (.ackFlush 1) = some t₁ ∧
      t₁.step oneFrame (.serverReleaseBuffer 1) = some t₂ ∧
      (t₂.cblk.mRear - t₂.cblk.mFront).toInt = -1 ∧
      t₂.step oneFrame (.serverObtainBuffer 1) = some t₃ ∧ t₃.server.mIsShutdown = true := by
  have hr := Machine.Run.of_exec (ackMachine oneFrame fun _ => ())
    (fun t c => t.AckPermitted c ∧ AckSound oneFrame t c)
    [.call (.clientObtainBuffer 1), .call (.clientReleaseBuffer 1), .call (.serverObtainBuffer 1),
      .call .flush] (by decide)
  exact ⟨_, _, _, _, hr, by decide, by decide, rfl, rfl, by decide, rfl, by decide⟩

end Track

end MediaFramework.Audio
