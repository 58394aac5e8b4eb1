import MediaFramework.AudioProcessing.CopyBufferProvider

/-!
# What goes through a CopyBufferProvider

A consumer releases the converted frames of the track one after the other. A buffer from upstream is
held until the last of its frames has been released, and is given back then. An empty release that
comes after that gives it back again, without frames, as `mConsumed` is still what it was.
-/

namespace MediaFramework.AudioProcessing

variable {α β : Type*} {convert : α → β} {frames : Nat → α} {size : Nat} {s s' : Session α β}

/-- The buffers with frames. -/
def nonempty (counts : List Nat) : List Nat := counts.filter fun n => decide (0 < n)

theorem nonempty_append_zero (counts : List Nat) : nonempty (counts ++ [0]) = nonempty counts := by
  rw [nonempty, List.filter_append]
  exact List.append_nil _

theorem nonempty_append_pos (counts : List Nat) {n : Nat} (h : 0 < n) :
    nonempty (counts ++ [n]) = nonempty counts ++ [n] := by
  rw [nonempty, List.filter_append, List.filter_singleton, decide_eq_true h]
  rfl

theorem nonempty_eq_self_iff {counts : List Nat} : nonempty counts = counts ↔ 0 ∉ counts := by
  rw [nonempty, List.filter_eq_self]
  constructor
  · intro hpos hzero
    exact absurd (hpos 0 hzero) (by decide)
  · intro hzero n hn
    have hne : n ≠ 0 := ne_of_mem_of_not_mem hn hzero
    exact decide_eq_true (Nat.pos_of_ne_zero hne)

theorem TrackBufferProvider.getNextBuffer_eq (t : TrackBufferProvider α) (frameCount : Nat) :
    ∃ res n, t.getNextBuffer frameCount =
        (res, { raw := Blocks.segment t.frames t.position n, frameCount := n },
          { t with calls := t.calls + 1, obtained := t.obtained ++ [n] }) ∧
      (res = OK ∨ n = 0) := by
  refine ⟨_, _, rfl, ?_⟩
  by_cases hok : (t.answer t.calls frameCount).1 = OK
  · exact .inl hok
  · exact .inr (if_neg hok)

namespace CopyBufferProvider

variable {c : CopyBufferProvider α β}

/-- The local buffer, and a buffer of frames from upstream. -/
structure Sound (frames : Nat → α) (size : Nat) (c : CopyBufferProvider α β) : Prop where
  count : c.mLocalBufferFrameCount = size
  length : c.mLocalBufferData.length = size
  track : c.mTrackBufferProvider.frames = frames
  buffer : c.mBuffer.raw = Blocks.segment frames c.mTrackBufferProvider.position c.mBuffer.frameCount
  position : c.mTrackBufferProvider.position = c.mTrackBufferProvider.released.sum

theorem Sound.hasLocalBuffer (h : c.Sound frames size) (hsize : 0 < size) :
    ¬c.mLocalBufferFrameCount = 0 := by
  rw [h.count]
  exact Nat.ne_of_gt hsize

/-- All buffers have been given back. -/
structure Idle (c : CopyBufferProvider α β) : Prop where
  empty : c.mBuffer.frameCount = 0
  once : nonempty c.mTrackBufferProvider.obtained = nonempty c.mTrackBufferProvider.released

/-- There are frames left in the buffer that is held. -/
structure Holding (c : CopyBufferProvider α β) : Prop where
  consumed : c.mConsumed < c.mBuffer.frameCount
  once : nonempty c.mTrackBufferProvider.obtained =
    nonempty c.mTrackBufferProvider.released ++ [c.mBuffer.frameCount]

/-- The next frames come into the local buffer. -/
theorem Sound.copyNext (h : c.Sound frames size) (hholding : c.Holding) (convert : α → β)
    (frameCount : Nat) :
    ∃ data count, c.copyNext convert frameCount =
        some (OK, { raw := data, frameCount := count }, { c with mLocalBufferData := data }) ∧
      data.length = size ∧ c.mConsumed + count ≤ c.mBuffer.frameCount ∧
      data.take count = Blocks.segment (fun i => convert (frames i))
        (c.mTrackBufferProvider.position + c.mConsumed) count := by
  have hlt := hholding.consumed
  rw [CopyBufferProvider.copyNext, if_pos hlt]
  dsimp only
  generalize hcount : min (min c.mLocalBufferFrameCount (c.mBuffer.frameCount - c.mConsumed))
    frameCount = count
  have hleft : c.mConsumed + count ≤ c.mBuffer.frameCount := by omega
  have hroom : count ≤ size := by
    have hsize := h.count
    omega
  have hload : Buffer.load c.mBuffer.raw c.mConsumed count =
      some (Blocks.segment frames (c.mTrackBufferProvider.position + c.mConsumed) count) := by
    rw [Buffer.load, h.buffer, Blocks.length_segment, if_pos hleft, Ring.slice, Blocks.drop_segment _ _ (by omega),
      Blocks.take_segment _ _ (by omega)]
  have hfits : (Blocks.segment (fun i => convert (frames i))
      (c.mTrackBufferProvider.position + c.mConsumed) count).length ≤ c.mLocalBufferData.length := by
    rw [Blocks.length_segment, h.length]
    exact hroom
  rw [copyFrames, hload, Option.bind_some, Blocks.map_segment, Buffer.store_front hfits]
  refine ⟨_, count, rfl, ?_, hleft, List.take_left' (Blocks.length_segment _ _ _)⟩
  rw [List.length_append, List.length_drop, Blocks.length_segment, h.length]
  omega

/-- How many frames have been released downstream. -/
def next (c : CopyBufferProvider α β) : Nat :=
  c.mTrackBufferProvider.position + if c.mBuffer.frameCount = 0 then 0 else c.mConsumed

theorem Idle.next_eq (h : c.Idle) : c.next = c.mTrackBufferProvider.position := by
  rw [next, if_pos h.empty, Nat.add_zero]

theorem Holding.next_eq (h : c.Holding) :
    c.next = c.mTrackBufferProvider.position + c.mConsumed := by
  have hlt := h.consumed
  rw [next, if_neg (by omega)]

/-- A consumer gets the frames behind those that have been released, or none. -/
theorem Sound.getNextBuffer (h : c.Sound frames size) (hsize : 0 < size)
    (hstate : c.Idle ∨ c.Holding) (convert : α → β) (frameCount : Nat) :
    ∃ res buffer c', c.getNextBuffer convert frameCount = some (res, buffer, c') ∧
      c'.Sound frames size ∧ c'.next = c.next ∧
      buffer.raw.take buffer.frameCount =
        Blocks.segment (fun i => convert (frames i)) c.next buffer.frameCount ∧
      (c'.Idle ∧ buffer.frameCount = 0 ∨
        c'.Holding ∧ c'.mConsumed + buffer.frameCount ≤ c'.mBuffer.frameCount) := by
  -- The frames of a buffer that is held.
  have hcopy : ∀ c₁ : CopyBufferProvider α β, c₁.Sound frames size → c₁.Holding →
      c₁.next = c.next →
      ∃ res buffer c', c₁.copyNext convert frameCount = some (res, buffer, c') ∧
        c'.Sound frames size ∧ c'.next = c.next ∧
        buffer.raw.take buffer.frameCount =
          Blocks.segment (fun i => convert (frames i)) c.next buffer.frameCount ∧
        (c'.Idle ∧ buffer.frameCount = 0 ∨
          c'.Holding ∧ c'.mConsumed + buffer.frameCount ≤ c'.mBuffer.frameCount) := by
    intro c₁ hsound hholding hnext
    obtain ⟨data, count, hcopy, hlength, hleft, hframes⟩ :=
      hsound.copyNext hholding convert frameCount
    rw [← hholding.next_eq, hnext] at hframes
    exact ⟨OK, _, _, hcopy,
      ⟨hsound.count, hlength, hsound.track, hsound.buffer, hsound.position⟩, hnext, hframes,
      .inr ⟨⟨hholding.consumed, hholding.once⟩, hleft⟩⟩
  rw [CopyBufferProvider.getNextBuffer, if_neg (h.hasLocalBuffer hsize)]
  obtain hidle | hholding := hstate
  · obtain ⟨res, n, hget, hok⟩ := c.mTrackBufferProvider.getNextBuffer_eq frameCount
    rw [if_pos hidle.empty, hget]
    dsimp only
    rw [if_neg (not_not.mpr hok)]
    obtain rfl | hpos := Nat.eq_zero_or_pos n
    · rw [if_pos (.inr rfl)]
      refine ⟨res, {}, _, rfl, ⟨h.count, h.length, h.track, rfl, h.position⟩, ?_, rfl,
        .inl ⟨⟨rfl, ?_⟩, rfl⟩⟩
      · rw [hidle.next_eq]
        rfl
      · exact (nonempty_append_zero _).trans hidle.once
    · have hne := Nat.ne_of_gt hpos
      rw [if_neg (not_or.mpr ⟨not_not.mpr (hok.resolve_right hne), hne⟩)]
      refine hcopy _ ⟨h.count, h.length, h.track, ?_, h.position⟩ ⟨hpos, ?_⟩ ?_
      · rw [h.track]
      · rw [← hidle.once]
        exact nonempty_append_pos _ hpos
      · rw [hidle.next_eq, next, if_neg hne]
        rfl
  · have hlt := hholding.consumed
    rw [if_neg (by omega)]
    exact hcopy c h hholding rfl

/-- An empty release may be passed on where nothing is held, and changes nothing. -/
theorem Sound.releaseBuffer_idle (h : c.Sound frames size) (hsize : 0 < size) (hidle : c.Idle) :
    (c.releaseBuffer 0).Sound frames size ∧ (c.releaseBuffer 0).Idle ∧
      (c.releaseBuffer 0).next = c.next := by
  have hnext := hidle.next_eq
  rw [releaseBuffer, if_neg (h.hasLocalBuffer hsize)]
  dsimp only
  split
  · refine ⟨⟨h.count, h.length, h.track, rfl, ?_⟩, ⟨rfl, ?_⟩, ?_⟩
    · show _ + c.mBuffer.frameCount = (_ ++ [c.mBuffer.frameCount]).sum
      rw [List.sum_append, List.sum_singleton, ← h.position]
    · show _ = nonempty (_ ++ [c.mBuffer.frameCount])
      rw [hidle.empty, nonempty_append_zero]
      exact hidle.once
    · rw [hnext]
      show _ + c.mBuffer.frameCount + 0 = _
      rw [hidle.empty]
      rfl
  · refine ⟨⟨h.count, h.length, h.track, h.buffer, h.position⟩, ⟨hidle.empty, hidle.once⟩, ?_⟩
    rw [hnext]
    show _ + (if c.mBuffer.frameCount = 0 then 0 else _) = _
    rw [if_pos hidle.empty, Nat.add_zero]

/-- The buffer is given back with all of its frames, once the last one has been released. -/
theorem Sound.releaseBuffer_holding (h : c.Sound frames size) (hsize : 0 < size)
    (hholding : c.Holding) {k : Nat} (hk : c.mConsumed + k ≤ c.mBuffer.frameCount) :
    (c.releaseBuffer k).Sound frames size ∧ (c.releaseBuffer k).next = c.next + k ∧
      ((c.releaseBuffer k).Idle ∧ c.mConsumed + k = c.mBuffer.frameCount ∨
        (c.releaseBuffer k).Holding ∧ (c.releaseBuffer k).mConsumed = c.mConsumed + k ∧
          (c.releaseBuffer k).mBuffer.frameCount = c.mBuffer.frameCount) := by
  have hlt := hholding.consumed
  have hnext := hholding.next_eq
  rw [releaseBuffer, if_neg (h.hasLocalBuffer hsize)]
  dsimp only
  -- either the last frame has been released and the buffer goes back, or it stays
  split
  · next hall =>
    have hlast : c.mConsumed + k = c.mBuffer.frameCount := Nat.le_antisymm hk hall.2
    refine ⟨⟨h.count, h.length, h.track, rfl, ?_⟩, ?_, .inl ⟨⟨rfl, ?_⟩, hlast⟩⟩
    · show _ + c.mBuffer.frameCount = (_ ++ [c.mBuffer.frameCount]).sum
      rw [List.sum_append, List.sum_singleton, ← h.position]
    · rw [hnext, Nat.add_assoc, hlast]
      rfl
    · show _ = nonempty (_ ++ [c.mBuffer.frameCount])
      rw [nonempty_append_pos _ (by omega)]
      exact hholding.once
  · next hmore =>
    have hless : c.mConsumed + k < c.mBuffer.frameCount := by
      by_contra hge
      exact hmore ⟨by omega, by omega⟩
    refine ⟨⟨h.count, h.length, h.track, h.buffer, h.position⟩, ?_,
      .inr ⟨⟨hless, hholding.once⟩, rfl, rfl⟩⟩
    rw [hnext, Nat.add_assoc]
    show _ + (if c.mBuffer.frameCount = 0 then 0 else _) = _
    rw [if_neg (by omega)]

theorem copyNext_released {frameCount : Nat} {r : Int × AudioBuffer β × CopyBufferProvider α β}
    (h : c.copyNext convert frameCount = some r) :
    r.2.2.mTrackBufferProvider.released = c.mTrackBufferProvider.released := by
  rw [CopyBufferProvider.copyNext] at h
  split at h
  · obtain ⟨data, -, rfl⟩ := Option.map_eq_some_iff.mp h
    rfl
  · cases h

/-- Nothing is released upstream when frames are requested. -/
theorem getNextBuffer_released {frameCount : Nat}
    {r : Int × AudioBuffer β × CopyBufferProvider α β}
    (h : c.getNextBuffer convert frameCount = some r) :
    r.2.2.mTrackBufferProvider.released = c.mTrackBufferProvider.released := by
  obtain ⟨res, n, hget, -⟩ := c.mTrackBufferProvider.getNextBuffer_eq frameCount
  rw [CopyBufferProvider.getNextBuffer, hget] at h
  split at h
  · obtain rfl := Option.some.inj h
    rfl
  split at h
  · dsimp only at h
    split at h
    · cases h
    split at h
    · obtain rfl := Option.some.inj h
      rfl
    · have hsame := copyNext_released h
      exact hsame
  · exact copyNext_released h

end CopyBufferProvider

namespace Session

/-- The frames released are those of the track in order, and those held come next. -/
structure Inv (convert : α → β) (frames : Nat → α) (size : Nat) (s : Session α β) : Prop where
  sound : s.provider.Sound frames size
  next : s.provider.next = s.released.length
  released : s.released = Blocks.segment (fun i => convert (frames i)) 0 s.released.length
  held : s.held = Blocks.segment (fun i => convert (frames i)) s.released.length s.held.length
  state : s.provider.Idle ∧ s.held = [] ∨
    s.provider.Holding ∧ s.provider.mConsumed + s.held.length ≤ s.provider.mBuffer.frameCount

theorem inv_init (convert : α → β) (frames : Nat → α) (answer : Nat → Nat → Int × Nat)
    (localData : List β) :
    (machine convert frames answer localData).init.Inv convert frames localData.length where
  sound := ⟨rfl, rfl, rfl, rfl, rfl⟩
  next := rfl
  released := rfl
  held := rfl
  state := .inl ⟨⟨rfl, rfl⟩, rfl⟩

/-- Where nothing is held there is nothing to release. -/
theorem Permitted.eq_zero {k : Nat} (h : s.Permitted (.releaseBuffer k)) (hnone : s.held = []) :
    k = 0 := by
  have hk : k ≤ s.held.length := h
  rw [hnone] at hk
  exact Nat.le_zero.mp hk

/-- Each call that a consumer is permitted is defined, and keeps the invariant. -/
theorem Inv.step (h : s.Inv convert frames size) (hsize : 0 < size) {call : Call}
    (hpermitted : s.Permitted call) :
    ∃ s', s.step convert call = some s' ∧ s'.Inv convert frames size := by
  cases call with
  | getNextBuffer frameCount =>
    obtain ⟨res, buffer, provider, hget, hsound, hnext, hframes, hstate⟩ :=
      h.sound.getNextBuffer hsize (h.state.imp And.left And.left) convert frameCount
    have hheld : (buffer.raw.take buffer.frameCount).length = buffer.frameCount := by
      rw [hframes, Blocks.length_segment]
    refine ⟨{ s with provider, held := buffer.raw.take buffer.frameCount }, ?_,
      ⟨hsound, hnext.trans h.next, h.released, ?_, ?_⟩⟩
    · rw [Session.step, hget]
      rfl
    · show buffer.raw.take buffer.frameCount =
        Blocks.segment _ s.released.length (buffer.raw.take buffer.frameCount).length
      rw [hheld, hframes, h.next]
    · refine hstate.imp (fun hidle => ⟨hidle.1, ?_⟩) fun hholding => ⟨hholding.1, ?_⟩
      · show buffer.raw.take buffer.frameCount = []
        rw [hidle.2, List.take_zero]
      · show _ + (buffer.raw.take buffer.frameCount).length ≤ _
        rw [hheld]
        exact hholding.2
  | releaseBuffer k =>
    have hk : k ≤ s.held.length := hpermitted
    have htake : (s.held.take k).length = k := List.length_take_of_le hk
    have hreleased : s.released ++ s.held.take k =
        Blocks.segment (fun i => convert (frames i)) 0 (s.released ++ s.held.take k).length := by
      rw [List.length_append, htake, Blocks.segment_add, ← h.released, Nat.zero_add, h.held,
        Blocks.take_segment _ _ hk]
    have hheld : s.held.drop k = Blocks.segment (fun i => convert (frames i))
        (s.released ++ s.held.take k).length (s.held.drop k).length := by
      rw [List.length_append, htake, List.length_drop, ← Blocks.drop_segment _ _ hk, ← h.held]
    refine ⟨_, rfl, ?_⟩
    obtain ⟨hidle, hnone⟩ | ⟨hholding, hfits⟩ := h.state
    · obtain rfl : k = 0 := hpermitted.eq_zero hnone
      obtain ⟨hsound, hidle', hnext⟩ := h.sound.releaseBuffer_idle hsize hidle
      refine ⟨hsound, ?_, hreleased, hheld, .inl ⟨hidle', ?_⟩⟩
      · rw [hnext, h.next, List.length_append, htake, Nat.add_zero]
      · rw [hnone, List.drop_zero]
    · obtain ⟨hsound, hnext, hstate⟩ :=
        h.sound.releaseBuffer_holding hsize hholding (k := k) (by omega)
      refine ⟨hsound, ?_, hreleased, hheld, ?_⟩
      · rw [hnext, h.next, List.length_append, htake]
      · refine hstate.imp (fun hidle => ⟨hidle.1, ?_⟩) fun hholding => ⟨hholding.1, ?_⟩
        · refine List.drop_eq_nil_of_le ?_
          have hall := hidle.2
          omega
        · rw [hholding.2.1, hholding.2.2, List.length_drop]
          omega

/-- The consumer releases the converted frames of the track in order. What has been released upstream
is each buffer from there, once and with all its frames, but for one of which frames are left, and as
many frames have gone upstream as the consumer has released of the buffers given back. -/
structure ForwardsOnce (convert : α → β) (frames : Nat → α) (s : Session α β) : Prop where
  released : s.released = Blocks.segment (fun i => convert (frames i)) 0 s.released.length
  once : nonempty s.provider.mTrackBufferProvider.obtained =
    s.provider.mTrackBufferProvider.released ++
      if s.provider.mBuffer.frameCount = 0 then [] else [s.provider.mBuffer.frameCount]
  after : s.released.length = s.provider.mTrackBufferProvider.released.sum +
    if s.provider.mBuffer.frameCount = 0 then 0 else s.provider.mConsumed
  consumed : s.provider.mBuffer.frameCount ≠ 0 →
    s.provider.mConsumed < s.provider.mBuffer.frameCount

/-- The buffers with frames are released upstream once. -/
theorem Inv.once (h : s.Inv convert frames size) :
    nonempty s.provider.mTrackBufferProvider.obtained =
      nonempty s.provider.mTrackBufferProvider.released ++
        if s.provider.mBuffer.frameCount = 0 then [] else [s.provider.mBuffer.frameCount] := by
  obtain ⟨hidle, -⟩ | ⟨hholding, -⟩ := h.state
  · rw [if_pos hidle.empty, List.append_nil]
    exact hidle.once
  · have hlt := hholding.consumed
    rw [if_neg (by omega)]
    exact hholding.once

/-- All goes through once if nothing else is released upstream. -/
theorem Inv.forwardsOnce_iff (h : s.Inv convert frames size) :
    s.ForwardsOnce convert frames ↔ 0 ∉ s.provider.mTrackBufferProvider.released := by
  rw [← nonempty_eq_self_iff]
  constructor
  · rintro ⟨-, honce, -, -⟩
    exact List.append_cancel_right (h.once.symm.trans honce)
  · intro hall
    refine ⟨h.released, h.once.trans (by rw [hall]), ?_, ?_⟩
    · rw [← h.next, ← h.sound.position]
      rfl
    · intro hne
      obtain ⟨hidle, -⟩ | ⟨hholding, -⟩ := h.state
      · exact absurd hidle.empty hne
      · exact hholding.consumed

/-- A release comes while a buffer is held, or before any has been. -/
def Proper (s : Session α β) (call : Call) : Prop :=
  s.Permitted call ∧
    match call with
    | .getNextBuffer _ => True
    | .releaseBuffer _ => s.provider.mBuffer.frameCount = 0 → s.provider.mConsumed = 0

instance (s : Session α β) (call : Call) : Decidable (s.Permitted call) :=
  match call with
  | .getNextBuffer frameCount => inferInstanceAs (Decidable (0 < frameCount))
  | .releaseBuffer frameCount => inferInstanceAs (Decidable (frameCount ≤ s.held.length))

instance (s : Session α β) (call : Call) : Decidable (s.Proper call) :=
  match call with
  | .getNextBuffer _ => inferInstanceAs (Decidable (_ ∧ True))
  | .releaseBuffer _ => inferInstanceAs (Decidable (_ ∧ (_ → _)))

/-- What a call releases upstream: the buffer that is held, if there is one. An empty release without
one is passed on where it is not proper. -/
theorem Inv.log_step (h : s.Inv convert frames size) (hsize : 0 < size) {call : Call}
    (hpermitted : s.Permitted call) (hstep : s.step convert call = some s') :
    0 ∉ s'.provider.mTrackBufferProvider.released ↔
      0 ∉ s.provider.mTrackBufferProvider.released ∧ s.Proper call := by
  cases call with
  | getNextBuffer frameCount =>
    have hproper : s.Proper (.getNextBuffer frameCount) := ⟨hpermitted, trivial⟩
    obtain ⟨r, hget, rfl⟩ := Option.map_eq_some_iff.mp hstep
    rw [CopyBufferProvider.getNextBuffer_released hget, and_iff_left hproper]
  | releaseBuffer k =>
    obtain rfl := Option.some.inj hstep
    show 0 ∉ (s.provider.releaseBuffer k).mTrackBufferProvider.released ↔ _
    rw [Proper, and_iff_right hpermitted, CopyBufferProvider.releaseBuffer,
      if_neg (h.sound.hasLocalBuffer hsize)]
    dsimp only
    obtain ⟨hidle, hnone⟩ | ⟨hholding, -⟩ := h.state
    · obtain rfl : k = 0 := hpermitted.eq_zero hnone
      have hempty := hidle.empty
      -- nothing is held: the guard lets a release pass on what has been consumed before
      by_cases hconsumed : s.provider.mConsumed = 0
      · rw [if_neg fun hgive => hgive.1 hconsumed]
        exact (and_iff_left fun _ => hconsumed).symm
      · rw [if_pos ⟨hconsumed, by omega⟩]
        refine iff_of_false (fun hnot => hnot ?_) fun hproper => hconsumed (hproper.2 hempty)
        show 0 ∈ _ ++ [s.provider.mBuffer.frameCount]
        rw [hempty]
        exact List.mem_concat_self
    · have hlt := hholding.consumed
      have hheld : s.provider.mBuffer.frameCount = 0 → s.provider.mConsumed = 0 := by omega
      rw [and_iff_left hheld]
      split
      · show 0 ∉ _ ++ [s.provider.mBuffer.frameCount] ↔ _
        rw [List.mem_append, List.mem_singleton, not_or]
        exact and_iff_left (by omega)
      · exact Iff.rfl

variable {answer : Nat → Nat → Int × Nat} {localData : List β}

theorem inv_of_run (hlocal : localData ≠ [])
    (h : (machine convert frames answer localData).Run Permitted s) :
    s.Inv convert frames localData.length := by
  refine h.invariant (inv_init convert frames answer localData) ?_
  intro s call s' hinv hpermitted hstep
  obtain ⟨next, hnext, hinv'⟩ := hinv.step (List.length_pos_iff.mpr hlocal) hpermitted
  obtain rfl := Option.some.inj (hnext.symm.trans hstep)
  exact hinv'

theorem Proper.permitted {call : Call} (h : s.Proper call) : s.Permitted call := h.1

/-- No empty release has gone upstream exactly where each call was proper. -/
theorem log_iff (hlocal : localData ≠ [])
    (h : (machine convert frames answer localData).Run Permitted s) :
    0 ∉ s.provider.mTrackBufferProvider.released ↔
      (machine convert frames answer localData).Run Proper s := by
  have hsize : 0 < localData.length := List.length_pos_iff.mpr hlocal
  constructor
  · intro hlog
    induction h with
    | init => exact .init
    | step hrun hpermitted hstep ih =>
      obtain ⟨hlog, hproper⟩ := ((inv_of_run hlocal hrun).log_step hsize hpermitted hstep).mp hlog
      exact .step (ih hlog) hproper hstep
  · intro hproper
    clear h
    induction hproper with
    | init => exact List.not_mem_nil
    | step hrun hproper hstep ih =>
      have hinv := inv_of_run hlocal (hrun.mono fun _ _ => Proper.permitted)
      exact (hinv.log_step hsize hproper.1 hstep).mpr ⟨ih, hproper⟩

/-- With a local buffer, whatever the track answers and whatever parts the consumer asks for and
releases, no copy leaves a buffer, and all goes through once exactly where no empty release comes
after a buffer has been given back and before the next one. -/
theorem copyBufferProvider_forwards (hlocal : localData ≠ [])
    (h : (machine convert frames answer localData).Run Permitted s) :
    (s.ForwardsOnce convert frames ∧ ∀ call, s.Permitted call → (s.step convert call).isSome) ↔
      (machine convert frames answer localData).Run Proper s := by
  have hinv := inv_of_run hlocal h
  rw [← log_iff hlocal h, ← hinv.forwardsOnce_iff]
  refine and_iff_left fun call hpermitted => ?_
  obtain ⟨next, hnext, -⟩ := hinv.step (List.length_pos_iff.mpr hlocal) hpermitted
  rw [hnext]
  rfl

/-- Three frames from upstream, then two, and no more. -/
def shortAnswer (call frameCount : Nat) : Int × Nat :=
  if call < 2 then (OK, min frameCount (3 - call)) else (-61, 0)

/-- Through a local buffer of two frames: the first buffer goes in two parts, of which the first is
released in part, and an empty release comes in the middle of the second. -/
theorem copyBufferProvider_forwards_two :
    ∃ s : Session Nat Nat, s.released = [0, 2, 4, 6] ∧
      s.provider.mTrackBufferProvider.obtained = [3, 2] ∧
      s.provider.mTrackBufferProvider.released = [3] ∧
      s.ForwardsOnce (2 * ·) id ∧ ∀ call, s.Permitted call → (s.step (2 * ·) call).isSome := by
  have hrun := Machine.Run.of_exec (machine (2 * ·) id shortAnswer [7, 7]) Proper
    [.getNextBuffer 5, .releaseBuffer 1, .getNextBuffer 5, .releaseBuffer 2, .getNextBuffer 3,
      .releaseBuffer 0, .releaseBuffer 1] (by decide)
  have hforwards := (copyBufferProvider_forwards (List.cons_ne_nil 7 [7])
    (hrun.mono fun _ _ => Proper.permitted)).mpr hrun
  exact ⟨_, by decide, by decide, by decide, hforwards⟩

/-- A buffer of two frames is released, the next request fails, and an empty release for it gives the
buffer back again, with no frames. -/
theorem empty_release_repeated :
    ¬∀ s, (machine id id (fun call n => if call = 0 then (OK, n) else (-61, 0)) [7, 7]).Run Permitted s →
      s.ForwardsOnce (id : Nat → Nat) id ∧ ∀ call, s.Permitted call → (s.step id call).isSome := by
  intro h
  have hrun := Machine.Run.of_exec
    (machine id id (fun call n => if call = 0 then (OK, n) else (-61, 0)) [7, 7]) Permitted
    [.getNextBuffer 2, .releaseBuffer 2, .getNextBuffer 2, .releaseBuffer 0] (by decide)
  have honce := (h _ hrun).1.once
  revert honce
  decide

end Session

end MediaFramework.AudioProcessing
