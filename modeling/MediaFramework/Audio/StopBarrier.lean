import MediaFramework.Audio.StreamingRuns

/-!
# The stop barrier of a streaming track

A stop or a flush of the client puts up a barrier at its rear position: until the server
starts again, `getRear` does not go past it. An observer keeps the unbounded rear, the
position of the latest request and the number of requests since the last start.
-/

namespace MediaFramework.Audio.Track

variable {α : Type*} {g : Geometry} {t : Track α} {p : Pos}

structure Barrier where
  rear : Nat
  stopAt : Nat
  /-- The stop and flush requests since the server last started. -/
  requests : Nat
  deriving DecidableEq

namespace Barrier

def request (b : Barrier) : Barrier :=
  { b with stopAt := b.rear, requests := b.requests + 1 }

def step (_ : Track α) (b : Barrier) : Call α → Barrier
  | .clientReleaseBuffer n => { b with rear := b.rear + n }
  | .stop | .flush => b.request
  | .start => { b with requests := 0 }
  | _ => b

end Barrier

variable {b : Barrier}

/-- The step system with an observer of the barrier. -/
def barred (g : Geometry) (mBuffers : Nat → α) : Machine (Track α × Barrier) (Call α) :=
  (machine g mBuffers).observe ⟨0, 0, 0⟩ Barrier.step

/-- Fewer requests between two starts than it takes for the counter in `mStop` to come
round. -/
def FewRequests (g : Geometry) (b : Barrier) : Call α → Prop
  | .stop | .flush => b.requests + 1 < 2^31 / g.mFrameCountP2
  | _ => True

instance (g : Geometry) (b : Barrier) : (c : Call α) → Decidable (FewRequests g b c)
  | .stop | .flush => inferInstanceAs (Decidable (_ < _))
  | .clientObtainBuffer _ | .clientWrite _ _ | .clientReleaseBuffer _ | .setBufferSizeInFrames _
  | .start | .serverObtainBuffer _ | .serverReleaseBuffer _ | .framesReady
  | .flushBufferIfNeeded => inferInstanceAs (Decidable True)

/-- The relation every step keeps: the counter in `mStop` counts the observed requests, and
a pending one stands where the observer has put it. -/
structure Barred (g : Geometry) (t : Track α) (b : Barrier) (p : Pos) : Prop where
  inv : Inv g t p
  rear : p.rear = b.rear
  stopAt : b.requests ≠ 0 → p.stopAt = b.stopAt
  stamped : Word.Stamped (g.log2P2 + 1) t.server.mStopLast t.cblk.mStop b.requests
  few : b.requests < 2^(32 - (g.log2P2 + 1))

theorem Barred.pending (h : Barred g t b p) : t.StopPending ↔ b.requests ≠ 0 :=
  h.stamped.ne_iff g.bits_le h.few

/-- A call that is neither a request nor a start. -/
theorem Barred.frame {t' : Track α} {p' : Pos} (h : Barred g t b p) (n : Nat) (hinv : Inv g t' p')
    (hrear : p'.rear = p.rear + n) (hstopAt : p'.stopAt = p.stopAt)
    (hstop : t'.cblk.mStop = t.cblk.mStop ∧ t'.server.mStopLast = t.server.mStopLast) :
    Barred g t' { b with rear := b.rear + n } p' := by
  obtain ⟨hword, hlast⟩ := hstop
  exact {
    inv := hinv
    rear := by rw [hrear, h.rear]
    stopAt := fun h0 => hstopAt.trans (h.stopAt h0)
    stamped := by rw [hword, hlast]; exact h.stamped
    few := h.few }

theorem Barred.request {t' : Track α} {p' : Pos} (h : Barred g t b p) (hinv : Inv g t' p')
    (hfew : b.requests + 1 < 2^31 / g.mFrameCountP2)
    (hpos : p'.rear = p.rear ∧ p'.stopAt = p.rear)
    (hstop : t'.cblk.mStop = nextRequest g t.cblk.mStop t.cblk.mRear ∧
      t'.server.mStopLast = t.server.mStopLast) :
    Barred g t' b.request p' := by
  obtain ⟨hword, hlast⟩ := hstop
  exact {
    inv := hinv
    rear := hpos.1.trans h.rear
    stopAt := fun _ => hpos.2.trans h.rear
    stamped := by
      rw [hword, hlast, nextRequest_eq_stamp]
      exact h.stamped.stamp g.bits_le t.cblk.mRear
    few := by rw [← g.generations_eq]; exact hfew }

theorem Barred.fresh (g : Geometry) (mBuffers : Nat → α) :
    Barred g (Track.fresh g mBuffers) ⟨0, 0, 0⟩ ⟨0, 0, 0, 0⟩ where
  inv := Inv.fresh g mBuffers
  rear := rfl
  stopAt := fun h => absurd rfl h
  stamped := Word.Stamped.refl g.bits_le _
  few := Nat.two_pow_pos _

theorem Barred.step (h : Barred g t b p) {c : Call α} {t' : Track α} (hp : t.Permitted c)
    (hs : Sound g t c) (hf : FewRequests g b c) (hstep : t.step g c = some t') :
    Barred g t' (b.step t c) (p.step t c) := by
  obtain ⟨t'', heq, hinv⟩ := h.inv.step hp hs
  obtain rfl : t'' = t' := Option.some.inj (heq.symm.trans hstep)
  -- only `flush`, `stop` and `start` touch the stop level
  cases c with
  | clientObtainBuffer n =>
    obtain ⟨_, _, hspec, _, _⟩ := clientObtainBuffer_spec h.inv.core n
    have heq' := Option.some.inj ((if_neg (Nat.ne_of_gt hp)).symm.trans hstep)
    rw [hspec] at heq'
    subst heq'
    exact h.frame 0 hinv rfl rfl ⟨rfl, rfl⟩
  | clientWrite i frame =>
    cases hstep
    exact h.frame 0 hinv rfl rfl ⟨rfl, rfl⟩
  | clientReleaseBuffer n =>
    have heq' := Option.some.inj ((h.inv.core.clientReleaseBuffer_eq hp).symm.trans hstep)
    subst heq'
    exact h.frame n hinv rfl rfl ⟨rfl, rfl⟩
  | setBufferSizeInFrames size =>
    cases hstep
    exact h.frame 0 hinv rfl rfl ⟨rfl, rfl⟩
  | flush =>
    cases hstep
    exact h.request hinv hf ⟨rfl, rfl⟩ ⟨rfl, rfl⟩
  | stop =>
    cases hstep
    exact h.request hinv hf ⟨rfl, rfl⟩ ⟨rfl, rfl⟩
  | start =>
    cases hstep
    exact {
      inv := hinv
      rear := h.rear
      stopAt := fun h0 => absurd rfl h0
      stamped := Word.Stamped.refl g.bits_le _
      few := Nat.two_pow_pos _ }
  | serverObtainBuffer n =>
    obtain ⟨_, _, hspec, _, _⟩ := serverObtainBuffer_spec h.inv.core hs n
    have heq' := Option.some.inj ((if_neg (Nat.ne_of_gt hp)).symm.trans hstep)
    rw [hspec] at heq'
    subst heq'
    exact h.frame 0 hinv (Pos.take_rear t p) (Pos.take_stopAt t p) (flushBufferIfNeeded_stop g t)
  | serverReleaseBuffer n =>
    obtain ⟨_, _, hspec⟩ := h.inv.core.serverReleaseBuffer_eq h.inv.held.toWithin hp
    have heq' := Option.some.inj (hspec.symm.trans hstep)
    subst heq'
    exact h.frame 0 hinv rfl rfl ⟨rfl, rfl⟩
  | framesReady =>
    have heq' := Option.some.inj hstep
    rw [h.inv.core.framesReady] at heq'
    subst heq'
    exact h
  | flushBufferIfNeeded =>
    cases hstep
    exact h.frame 0 hinv (Pos.take_rear t p) (Pos.take_stopAt t p) (flushBufferIfNeeded_stop g t)

theorem Barred.of_run {mBuffers : Nat → α}
    (hr : (barred g mBuffers).Run
      (fun x c => x.1.Permitted c ∧ Sound g x.1 c ∧ FewRequests g x.2 c) (t, b)) :
    ∃ p, Barred g t b p := by
  refine Machine.Run.observe_invariant (R := fun t b => ∃ p, Barred g t b p)
    ⟨_, Barred.fresh g mBuffers⟩ ?_ hr
  rintro t b c t' ⟨p, h⟩ ⟨hp, hs, hf⟩ hstep
  exact ⟨_, h.step hp hs hf hstep⟩

/-- The largest buffer the proxies accept. -/
def largest : Geometry := ⟨2^30, 30, by decide, by decide, by decide⟩

/-- While a request is pending the server reads up to its position and no further, and the
position is still ahead of the front; otherwise it reads up to the client's rear. -/
theorem getRear_respects_stop (g : Geometry) (mBuffers : Nat → α)
    (hr : (barred g mBuffers).Run
      (fun x c => x.1.Permitted c ∧ Sound g x.1 c ∧ FewRequests g x.2 c) (t, b))
    (hreb : t.StopPending → StopInBlock g t) :
    t.cblk.mRear = BitVec.ofNat 32 b.rear ∧
      (b.requests ≠ 0 → t.getRear g = BitVec.ofNat 32 b.stopAt ∧ b.stopAt ≤ b.rear ∧
        0 ≤ (BitVec.ofNat 32 b.stopAt - t.cblk.mFront).toInt) ∧
      (b.requests = 0 → t.getRear g = t.cblk.mRear) := by
  obtain ⟨p, h⟩ := Barred.of_run hr
  have hget := h.inv.core.getRear fun hp => (h.inv.core.stopInBlock_iff hp).mp (hreb hp)
  refine ⟨h.rear ▸ h.inv.core.rear, fun h0 => ?_, fun h0 => ?_⟩
  · have hp := h.pending.mpr h0
    have hm := h.inv.core.stop hp
    have hat := h.stopAt h0
    have hrange := h.inv.core.getRear_range
    rw [if_neg hp, hat] at hget
    rw [hget] at hrange
    refine ⟨hget, ?_, hrange.1⟩
    rw [← hat, ← h.rear]
    exact hm.le
  · have hp : t.cblk.mStop = t.server.mStopLast := h.stamped.2 h0
    rw [if_pos hp, ← h.inv.core.rear] at hget
    exact hget

/-- The front is below `2^31`, and the client has stopped there and gone on. -/
theorem getRear_respects_stop_largest :
    ∃ x : Track Unit × Barrier,
      (barred largest fun _ => ()).Run
        (fun x c => x.1.Permitted c ∧ Sound largest x.1 c ∧ FewRequests largest x.2 c) x ∧
        x.1.cblk.mFront = BitVec.ofNat 32 (2^31 - 2) ∧ x.2 = ⟨2^31 + 1, 2^31, 1⟩ ∧
        x.1.getRear largest = BitVec.ofNat 32 x.2.stopAt := by
  have hr := Machine.Run.of_exec (barred largest fun _ => ())
    (fun x c => x.1.Permitted c ∧ Sound largest x.1 c ∧ FewRequests largest x.2 c)
    [.clientObtainBuffer (2^30), .clientReleaseBuffer (2^30), .serverObtainBuffer (2^30),
      .serverReleaseBuffer (2^30), .clientObtainBuffer (2^30), .clientReleaseBuffer (2^30), .stop,
      .serverObtainBuffer (2^30), .serverReleaseBuffer (2^30 - 2), .clientObtainBuffer 1,
      .clientReleaseBuffer 1, .serverObtainBuffer (2^30), .framesReady] (by decide)
  exact ⟨_, hr, by decide, by decide,
    ((getRear_respects_stop largest _ hr (by decide)).2.1 (by decide)).1⟩

/-- With the largest buffer and front and rear on either side of `2^31`, the stop position
looks corrupt to the server and it plays on to the client's rear. -/
theorem stop_across_sign_bit_ignored :
    ∃ x : Track Unit × Barrier,
      (barred largest fun _ => ()).Run
        (fun x c => x.1.Permitted c ∧ FewRequests largest x.2 c) x ∧
        x.2 = ⟨2^31 + 1, 2^31 - 1, 1⟩ ∧
        x.1.getRear largest = BitVec.ofNat 32 (2^31 + 1) := by
  have hr := Machine.Run.of_exec (barred largest fun _ => ())
    (fun x c => x.1.Permitted c ∧ FewRequests largest x.2 c)
    [.clientObtainBuffer (2^30), .clientReleaseBuffer (2^30), .serverObtainBuffer (2^30),
      .serverReleaseBuffer (2^30), .clientObtainBuffer (2^30), .clientReleaseBuffer (2^30 - 1),
      .stop, .serverObtainBuffer (2^30), .serverReleaseBuffer (2^30 - 2), .clientObtainBuffer 1,
      .clientReleaseBuffer 1, .clientObtainBuffer 1, .clientReleaseBuffer 1] (by decide)
  exact ⟨_, hr, by decide, by decide⟩

end MediaFramework.Audio.Track
