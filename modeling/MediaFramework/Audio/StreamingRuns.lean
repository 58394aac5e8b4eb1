import MediaFramework.Audio.StreamingInvariant

/-!
# Runs of a streaming track

Every permitted call keeps the positions behind the control block in order, except in
two situations, which `Sound` excludes: the server takes a flush while it still holds
frames of an obtained buffer (`mUnreleased` survives the jump of the front), and, with
`mFrameCountP2 = 2^30`, it places a position across a multiple of `2^31`.
-/

namespace MediaFramework.Audio.Track

variable {α : Type*} {g : Geometry} {t : Track α} {p : Pos}

/-- The positions after a call. -/
def Pos.step (t : Track α) (p : Pos) : Call α → Pos
  | .clientReleaseBuffer n => { p with rear := p.rear + n }
  | .flush => { p with flushAt := p.rear, stopAt := p.rear }
  | .stop => { p with stopAt := p.rear }
  | .serverObtainBuffer _ | .flushBufferIfNeeded => p.take t
  | .serverReleaseBuffer n => { p with front := p.front + n }
  | _ => p

/-- The calls that do not run into the two defects. -/
def Sound (g : Geometry) (t : Track α) : Call α → Prop
  | .serverObtainBuffer _ => Rebasable g t
  | .flushBufferIfNeeded =>
    (t.FlushPending → FlushInBlock g t) ∧
      (t.cblk.mFlush = t.server.mFlush ∨ t.server.mUnreleased = 0)
  | _ => True

instance (g : Geometry) (t : Track α) : Decidable (Rebasable g t) :=
  inferInstanceAs (Decidable ((_ → _) ∧ (_ → _)))

instance (g : Geometry) (t : Track α) : (c : Call α) → Decidable (Sound g t c)
  | .serverObtainBuffer _ => inferInstanceAs (Decidable (Rebasable g t))
  | .flushBufferIfNeeded => inferInstanceAs (Decidable ((_ → _) ∧ (_ ∨ _)))
  | .clientObtainBuffer _ | .clientWrite _ _ | .clientReleaseBuffer _ | .setBufferSizeInFrames _
  | .flush | .stop | .start | .serverReleaseBuffer _ | .framesReady =>
    inferInstanceAs (Decidable True)

/-- The positions are in order, and the frames the server holds lie within them. -/
structure Kept (g : Geometry) (t : Track α) (p : Pos) : Prop where
  core : Core g t p
  within : Within t p

structure Inv (g : Geometry) (t : Track α) (p : Pos) : Prop where
  core : Core g t p
  held : Held g t p

theorem Inv.kept (h : Inv g t p) : Kept g t p := ⟨h.core, h.held.toWithin⟩

theorem Kept.inv (h : Kept g t p)
    (hc : p.front % g.mFrameCountP2 + t.server.mUnreleased ≤ g.mFrameCountP2) : Inv g t p :=
  ⟨h.core, h.within, hc⟩

theorem Inv.fresh (g : Geometry) (mBuffers : Nat → α) : Inv g (fresh g mBuffers) ⟨0, 0, 0, 0⟩ where
  core := {
    front := rfl
    rear := rfl
    front_le := le_rfl
    rear_le := Nat.zero_le _
    chunk := by simp [Track.fresh, setBufferSizeInFrames]
    flush := fun h => absurd rfl h
    stop := fun h => absurd rfl h
    flush_le_stop := fun h => absurd rfl h
    size_le := clippedSize_le g _
    client_up := rfl
    server_up := rfl }
  held := {
    le := le_rfl
    flush := fun h => absurd rfl h
    stop := fun h => absurd rfl h
    chunk := by simp [Track.fresh, setBufferSizeInFrames] }

theorem Kept.clientObtainBuffer (h : Kept g t p) (n : Nat) :
    Kept g (t.clientObtainBuffer g n).2.2 p := by
  obtain ⟨flags, u, heq, hrl, hch⟩ := clientObtainBuffer_spec h.core n
  rw [heq]
  exact ⟨{ h.core with rear_le := hrl, chunk := hch }, { h.within with }⟩

theorem clientObtainBuffer_server (h : Core g t p) (n : Nat) :
    (t.clientObtainBuffer g n).2.2.server = t.server := by
  obtain ⟨flags, u, heq, -⟩ := clientObtainBuffer_spec h n
  rw [heq]

theorem Kept.clientReleaseBuffer (h : Kept g t p) {n : Nat} (hn : n ≤ t.client.mUnreleased) :
    ∃ t', t.clientReleaseBuffer g n = some t' ∧ t'.server = t.server ∧
      Kept g t' { p with rear := p.rear + n } := by
  have hfl := h.core.front_le
  have hrl := h.core.rear_le
  have hle := h.within.le
  refine ⟨_, h.core.clientReleaseBuffer_eq hn, rfl, ?_, ?_⟩
  · exact { h.core with
      rear := rfl
      front_le := by simp only; omega
      rear_le := by simp only; omega
      chunk := chunk_advance (Nat.two_pow_pos _) h.core.chunk hn
      flush := fun hp => ⟨(h.core.flush hp).low, (h.core.flush hp).ge,
        (h.core.flush hp).le.trans (Nat.le_add_right _ _)⟩
      stop := fun hp => ⟨(h.core.stop hp).low, (h.core.stop hp).ge,
        (h.core.stop hp).le.trans (Nat.le_add_right _ _)⟩ }
  · exact { h.within with le := hle.trans (Nat.le_add_right _ _) }

theorem Kept.setBufferSizeInFrames (h : Kept g t p) (size : Nat) :
    Kept g (t.setBufferSizeInFrames g size) p :=
  ⟨{ h.core with size_le := clippedSize_le g size }, { h.within with }⟩

theorem Kept.stop (h : Kept g t p) :
    Kept g (t.sendStreamingFlushStop g false) { p with stopAt := p.rear } where
  core := { h.core with
    stop := fun _ => h.core.marks_nextRequest _
    flush_le_stop := fun hp _ => (h.core.flush hp).le }
  within := { h.within with stop := fun _ => h.within.le }

theorem Kept.flush (h : Kept g t p) :
    Kept g (t.sendStreamingFlushStop g true) { p with flushAt := p.rear, stopAt := p.rear } where
  core := { h.core with
    flush := fun _ => h.core.marks_nextRequest _
    stop := fun _ => h.core.marks_nextRequest _
    flush_le_stop := fun _ _ => le_rfl }
  within := { h.within with flush := fun _ => h.within.le, stop := fun _ => h.within.le }

theorem Kept.start (h : Kept g t p) : Kept g t.start p where
  core := { h.core with
    stop := fun hp => absurd rfl hp
    flush_le_stop := fun _ hp => absurd rfl hp }
  within := { h.within with stop := fun hp => absurd rfl hp }

theorem Inv.serverObtainBuffer (h : Core g t p) (hr : Rebasable g t) (n : Nat) :
    Inv g (t.serverObtainBuffer g n false).2.2 (p.take t) := by
  have hc := h.flushBufferIfNeeded hr.1
  obtain ⟨hstop, hlast⟩ := flushBufferIfNeeded_stop g t
  obtain ⟨avail, u, heq, hlim, hch⟩ := serverObtainBuffer_spec h hr n
  have hrear := Pos.take_rear t p
  have hstopAt := Pos.take_stopAt t p
  rw [heq]
  refine ⟨{ hc with }, { le := ?_, flush := ?_, stop := ?_, chunk := hch }⟩
  · -- a stop level is never beyond the rear
    rw [hrear]
    split at hlim
    · exact hlim
    · next hs => exact hlim.trans (h.stop hs).le
  · exact fun hp => absurd hp (flushBufferIfNeeded_no_flush g t)
  · intro hs
    change (t.flushBufferIfNeeded g).cblk.mStop ≠ (t.flushBufferIfNeeded g).server.mStopLast at hs
    rw [hstop, hlast] at hs
    rw [if_neg hs] at hlim
    rw [hstopAt]
    exact hlim

theorem Kept.serverReleaseBuffer (h : Kept g t p) {n : Nat} (hn : n ≤ t.server.mUnreleased) :
    ∃ t', t.serverReleaseBuffer g n = some t' ∧
      t'.server.mUnreleased = t.server.mUnreleased - n ∧
      Kept g t' { p with front := p.front + n } := by
  have hrl := h.core.rear_le
  have hle := h.within.le
  obtain ⟨_, _, heq⟩ := h.core.serverReleaseBuffer_eq h.within hn
  have hflush := h.within.flush
  have hstop := h.within.stop
  refine ⟨_, heq, rfl, ?_, ?_⟩
  · exact { h.core with
      front := rfl
      front_le := by simp only; omega
      rear_le := by simp only; omega
      flush := fun hp => ⟨(h.core.flush hp).low, by have := hflush hp; simp only; omega,
        (h.core.flush hp).le⟩
      stop := fun hp => ⟨(h.core.stop hp).low, by have := hstop hp; simp only; omega,
        (h.core.stop hp).le⟩ }
  · exact {
      le := by simp only; omega
      flush := fun hp => by have := hflush hp; simp only; omega
      stop := fun hp => by have := hstop hp; simp only; omega }

theorem Kept.flushBufferIfNeeded (h : Kept g t p) (hr : t.FlushPending → FlushInBlock g t)
    (hu : t.cblk.mFlush = t.server.mFlush ∨ t.server.mUnreleased = 0) :
    Kept g (t.flushBufferIfNeeded g) (p.take t) := by
  have hc := h.core.flushBufferIfNeeded hr
  by_cases hp : t.cblk.mFlush = t.server.mFlush
  · simpa only [Track.flushBufferIfNeeded, Pos.take, if_pos hp] using h
  · -- nothing is held, so the limits hold of the new front by the order of the positions
    have hu0 : (t.flushBufferIfNeeded g).server.mUnreleased = 0 := by
      have := hu.resolve_left hp
      simpa only [Track.flushBufferIfNeeded, if_neg hp] using this
    refine ⟨hc, { le := ?_, flush := ?_, stop := ?_ }⟩
    · rw [hu0]; exact hc.front_le
    · exact fun hp => absurd hp (flushBufferIfNeeded_no_flush g t)
    · exact fun hs => by rw [hu0]; exact (hc.stop hs).ge

/-- A permitted and sound call neither aborts nor breaks the order. -/
theorem Kept.step (h : Kept g t p) {c : Call α} (hp : t.Permitted c) (hs : Sound g t c) :
    ∃ t', t.step g c = some t' ∧ Kept g t' (p.step t c) := by
  cases c with
  | clientObtainBuffer n =>
    exact ⟨_, if_neg (Nat.ne_of_gt hp), h.clientObtainBuffer n⟩
  | clientWrite i frame => exact ⟨_, rfl, { h.core with }, { h.within with }⟩
  | clientReleaseBuffer n =>
    obtain ⟨t', heq, -, h'⟩ := h.clientReleaseBuffer hp
    exact ⟨t', heq, h'⟩
  | setBufferSizeInFrames size => exact ⟨_, rfl, h.setBufferSizeInFrames size.toNat⟩
  | flush => exact ⟨_, rfl, h.flush⟩
  | stop => exact ⟨_, rfl, h.stop⟩
  | start => exact ⟨_, rfl, h.start⟩
  | serverObtainBuffer n =>
    exact ⟨_, if_neg (Nat.ne_of_gt hp), (Inv.serverObtainBuffer h.core hs n).kept⟩
  | serverReleaseBuffer n =>
    obtain ⟨t', heq, -, h'⟩ := h.serverReleaseBuffer hp
    exact ⟨t', heq, h'⟩
  | framesReady =>
    refine ⟨t, ?_, h⟩
    simp only [Track.step, h.core.framesReady]
  | flushBufferIfNeeded => exact ⟨_, rfl, h.flushBufferIfNeeded hs.1 hs.2⟩

/-- What the server holds stays one chunk. -/
theorem Inv.step (h : Inv g t p) {c : Call α} (hp : t.Permitted c) (hs : Sound g t c) :
    ∃ t', t.step g c = some t' ∧ Inv g t' (p.step t c) := by
  obtain ⟨t', heq, hkept⟩ := h.kept.step hp hs
  refine ⟨t', heq, ?_⟩
  have hch := h.held.chunk
  have hlt : ∀ x, x % g.mFrameCountP2 < g.mFrameCountP2 := fun x => Nat.mod_lt _ (Nat.two_pow_pos _)
  cases c with
  | clientObtainBuffer n =>
    rw [Track.step, if_neg (Nat.ne_of_gt hp)] at heq
    cases heq
    exact hkept.inv (by rw [clientObtainBuffer_server h.core]; exact hch)
  | clientWrite i frame => cases heq; exact hkept.inv hch
  | clientReleaseBuffer n =>
    obtain ⟨t₁, heq₁, hserver, -⟩ := h.kept.clientReleaseBuffer hp
    obtain rfl : t₁ = t' := Option.some.inj (heq₁.symm.trans heq)
    exact hkept.inv (by rw [hserver]; exact hch)
  | setBufferSizeInFrames size => cases heq; exact hkept.inv hch
  | flush => cases heq; exact hkept.inv hch
  | stop => cases heq; exact hkept.inv hch
  | start => cases heq; exact hkept.inv hch
  | serverObtainBuffer n =>
    rw [Track.step, if_neg (Nat.ne_of_gt hp)] at heq
    cases heq
    exact Inv.serverObtainBuffer h.core hs n
  -- what has been obtained shrinks at its front, and stays within the chunk
  | serverReleaseBuffer n =>
    obtain ⟨t₁, heq₁, hu, -⟩ := h.kept.serverReleaseBuffer hp
    obtain rfl : t₁ = t' := Option.some.inj (heq₁.symm.trans heq)
    exact hkept.inv (by rw [hu]; exact chunk_advance (Nat.two_pow_pos _) hch hp)
  | framesReady =>
    simp only [Track.step, h.core.framesReady] at heq
    cases heq
    exact hkept.inv hch
  | flushBufferIfNeeded =>
    cases heq
    by_cases hf : t.cblk.mFlush = t.server.mFlush
    · simpa only [Track.flushBufferIfNeeded, Pos.step, Pos.take, if_pos hf] using h
    · refine hkept.inv ?_
      have hu : (t.flushBufferIfNeeded g).server.mUnreleased = 0 := by
        have := hs.2.resolve_left hf
        simpa only [Track.flushBufferIfNeeded, if_neg hf] using this
      rw [hu]
      exact (hlt _).le

theorem Inv.of_run {mBuffers : Nat → α}
    (hr : (machine g mBuffers).Run (fun t c => t.Permitted c ∧ Sound g t c) t) :
    ∃ p, Inv g t p := by
  refine Machine.Run.invariant (I := fun t => ∃ p, Inv g t p) ⟨_, Inv.fresh g mBuffers⟩ ?_ hr
  rintro t c t' ⟨p, h⟩ ⟨hp, hs⟩ hstep
  obtain ⟨t'', heq, h'⟩ := h.step hp hs
  obtain rfl : t'' = t' := Option.some.inj (heq.symm.trans hstep)
  exact ⟨_, h'⟩

/-- The control block is not corrupt and neither proxy has latched the shutdown. -/
def Intact (g : Geometry) (t : Track α) : Prop :=
  (0 ≤ (t.cblk.mRear - t.cblk.mFront).toInt ∧
    (t.cblk.mRear - t.cblk.mFront).toInt ≤ g.mFrameCount) ∧
  t.client.mIsShutdown = false ∧ t.server.mIsShutdown = false

theorem Core.intact (h : Core g t p) : Intact g t := by
  have hfl := h.front_le
  have hrl := h.rear_le
  refine ⟨?_, h.client_up, h.server_up⟩
  rw [h.filled]
  omega

/-- Along every run of permitted, sound calls the fill level stays within the buffer, no
proxy shuts down, and no permitted call aborts. -/
theorem streaming_runs_intact (g : Geometry) (mBuffers : Nat → α)
    (hr : (machine g mBuffers).Run (fun t c => t.Permitted c ∧ Sound g t c) t) :
    Intact g t ∧ ∀ c, t.Permitted c → Sound g t c → ∃ t', t.step g c = some t' ∧ Intact g t' := by
  obtain ⟨p, h⟩ := Inv.of_run hr
  refine ⟨h.core.intact, fun c hp hs => ?_⟩
  obtain ⟨t', heq, h'⟩ := h.step hp hs
  exact ⟨t', heq, h'.core.intact⟩

/-- A buffer of a single frame. -/
def oneFrame : Geometry := ⟨1, 0, by decide, by decide, by decide⟩

theorem streaming_runs_intact_oneFrame :
    ∃ t : Track Unit,
      (machine oneFrame fun _ => ()).Run (fun t c => t.Permitted c ∧ Sound oneFrame t c) t ∧
        t.cblk.mFront = 1 ∧ Intact oneFrame t := by
  have hr := Machine.Run.of_exec (machine oneFrame fun _ => ())
    (fun t c => t.Permitted c ∧ Sound oneFrame t c)
    [.clientObtainBuffer 1, .clientReleaseBuffer 1, .serverObtainBuffer 1, .serverReleaseBuffer 1,
      .flush, .flushBufferIfNeeded, .stop] (by decide)
  exact ⟨_, hr, by decide, (streaming_runs_intact oneFrame _ hr).1⟩

/-- A flush taken between the server's obtain and release counts the held frame twice: the
front passes the rear, and the next obtain shuts the server down. -/
theorem stale_release_overruns :
    ∃ t t' : Track Unit,
      (machine oneFrame fun _ => ()).Run (fun t c => t.Permitted c) t ∧
        (t.cblk.mRear - t.cblk.mFront).toInt = -1 ∧
        t.step oneFrame (.serverObtainBuffer 1) = some t' ∧ t'.server.mIsShutdown = true := by
  have hr := Machine.Run.of_exec (machine oneFrame fun _ => ())
    (fun t c => t.Permitted c)
    [.clientObtainBuffer 1, .clientReleaseBuffer 1, .serverObtainBuffer 1, .flush,
      .flushBufferIfNeeded, .serverReleaseBuffer 1] (by decide)
  exact ⟨_, _, hr, by decide, rfl, by decide⟩

end MediaFramework.Audio.Track
