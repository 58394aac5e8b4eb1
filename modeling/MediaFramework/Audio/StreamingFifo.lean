import MediaFramework.Audio.StreamingRuns

/-!
# The streaming track refines a queue with flushes

`Fifo` is what a streaming track is for, on unbounded positions: frames go in at the
rear, come out at the front, and a flush discards what was in the queue when it was
requested and is still there when the server looks. An observer of the step system
records the frames that pass through the ring next to such a queue.
-/

namespace MediaFramework.Audio

/-- A queue with flushes. `past` lists every frame that has left the queue, with `true` if
the reader took it and `false` if a flush discarded it. -/
structure Fifo (α : Type*) where
  past : List (α × Bool)
  queue : List α
  /-- How many frames of the queue the latest flush covers. -/
  marked : Nat
  /-- The flushes requested since the reader last looked. -/
  flushes : Nat

namespace Fifo

variable {α : Type*} (f : Fifo α)

def empty : Fifo α := ⟨[], [], 0, 0⟩

/-- The position of the oldest frame in the queue. -/
def front : Nat := f.past.length

def rear : Nat := f.past.length + f.queue.length

/-- The frames the reader has taken, oldest first. -/
def delivered : List α := (f.past.filter Prod.snd).map Prod.fst

/-- Move the `n` oldest frames out of the queue. -/
def leave (n : Nat) (taken : Bool) : Fifo α :=
  { f with
    past := f.past ++ (f.queue.take n).map (·, taken)
    queue := f.queue.drop n
    marked := f.marked - n }

def push (frames : List α) : Fifo α := { f with queue := f.queue ++ frames }

def flush : Fifo α := { f with marked := f.queue.length, flushes := f.flushes + 1 }

/-- The reader looks for a flush and discards what the latest one covers. -/
def look : Fifo α := if f.flushes = 0 then f else { f.leave f.marked false with flushes := 0 }

def pop (n : Nat) : Fifo α := f.leave n true

theorem leave_front {n : Nat} (taken : Bool) (hn : n ≤ f.queue.length) :
    (f.leave n taken).front = f.front + n := by
  simp [leave, front, Nat.min_eq_left hn]

theorem leave_rear {n : Nat} (taken : Bool) (hn : n ≤ f.queue.length) :
    (f.leave n taken).rear = f.rear := by
  simp only [leave, rear, List.length_append, List.length_map, List.length_take, List.length_drop]
  omega

theorem leave_sent (n : Nat) (taken : Bool) :
    (f.leave n taken).past.map Prod.fst ++ (f.leave n taken).queue =
      f.past.map Prod.fst ++ f.queue := by
  simp [leave, List.map_map, Function.comp_def]

theorem leave_delivered (n : Nat) (taken : Bool) :
    (f.leave n taken).delivered =
      f.delivered ++ if taken then f.queue.take n else [] := by
  simp only [leave, delivered, List.filter_append, List.map_append, List.append_cancel_left_eq]
  generalize f.queue.take n = l
  cases taken with
  | false => simp
  | true => simp [List.filter_eq_self.mpr, Function.comp_def]

end Fifo

namespace Track

variable {α : Type*} (g : Geometry) (t : Track α)

/-- The first `n` frames of the buffer the client has obtained. -/
def clientFrames (n : Nat) : List α :=
  (List.range n).map fun i => t.mBuffers (g.ringIndex t.cblk.mRear + i)

/-- The first `n` frames of the buffer the server has obtained. -/
def serverFrames (n : Nat) : List α :=
  (List.range n).map fun i => t.mBuffers (g.ringIndex t.cblk.mFront + i)

/-- What an observer of the shared memory records: the frames released by either side, as
they stand in the ring at that moment, the queue they should have gone through, and the
rear position at the latest flush. -/
structure Tap (α : Type*) where
  sent : List α
  heard : List α
  fifo : Fifo α
  flushedAt : Nat

def Tap.step (t : Track α) (o : Tap α) : Call α → Tap α
  | .clientReleaseBuffer n =>
    { o with sent := o.sent ++ t.clientFrames g n, fifo := o.fifo.push (t.clientFrames g n) }
  | .flush => { o with fifo := o.fifo.flush, flushedAt := o.fifo.rear }
  | .serverObtainBuffer _ | .flushBufferIfNeeded => { o with fifo := o.fifo.look }
  | .serverReleaseBuffer n =>
    { o with heard := o.heard ++ t.serverFrames g n, fifo := o.fifo.pop n }
  | _ => o

/-- The step system with the observer. -/
def tapped (mBuffers : Nat → α) : Machine (Track α × Tap α) (Call α) :=
  (machine g mBuffers).observe ⟨[], [], .empty, 0⟩ (Tap.step g)

/-- The client does not flush so often between two looks of the server that the counter
in `mFlush` comes round. -/
def FewFlushes (o : Tap α) : Call α → Prop
  | .flush => o.fifo.flushes + 1 < 2^31 / g.mFrameCountP2
  | _ => True

instance (g : Geometry) (o : Tap α) : (c : Call α) → Decidable (FewFlushes g o c)
  | .flush => inferInstanceAs (Decidable (_ < _))
  | .clientObtainBuffer _ | .clientWrite _ _ | .clientReleaseBuffer _ | .setBufferSizeInFrames _
  | .stop | .start | .serverObtainBuffer _ | .serverReleaseBuffer _ | .framesReady
  | .flushBufferIfNeeded => inferInstanceAs (Decidable True)

/-- The track is a 32-bit image of the queue. -/
structure View (t : Track α) (o : Tap α) : Prop where
  sent : o.sent = o.fifo.past.map Prod.fst ++ o.fifo.queue
  heard : o.heard = o.fifo.delivered
  front : t.cblk.mFront = BitVec.ofNat 32 o.fifo.front
  rear : t.cblk.mRear = BitVec.ofNat 32 o.fifo.rear
  fits : o.fifo.queue.length ≤ g.mFrameCount
  ring : ∀ i (h : i < o.fifo.queue.length),
    t.mBuffers ((o.fifo.front + i) % g.mFrameCountP2) = o.fifo.queue[i]
  held : ∀ n ≤ t.server.mUnreleased, t.serverFrames g n = o.fifo.queue.take n
  counts : t.server.mReleased + t.server.mFlushed = o.fifo.front
  pending : t.FlushPending ↔ o.fifo.flushes ≠ 0

variable {g t} {p : Pos} {o : Tap α}

/-! ### Simulation -/

/-- The relation that every step keeps: the positions behind the control block are those of
the queue, and the counter in `mFlush` counts the flushes the server has not seen. -/
structure Sim (g : Geometry) (t : Track α) (o : Tap α) (p : Pos) : Prop where
  inv : Inv g t p
  front : p.front = o.fifo.front
  rear : p.rear = o.fifo.rear
  marked : o.fifo.marked ≤ o.fifo.queue.length
  flushAt : t.FlushPending → p.flushAt = o.fifo.front + o.fifo.marked
  latest : t.FlushPending → p.flushAt = o.flushedAt
  stamped : Word.Stamped (g.log2P2 + 1) t.server.mFlush t.cblk.mFlush o.fifo.flushes
  few : o.fifo.flushes < 2^(32 - (g.log2P2 + 1))
  ring : ∀ i (h : i < o.fifo.queue.length),
    t.mBuffers ((o.fifo.front + i) % g.mFrameCountP2) = o.fifo.queue[i]
  counts : t.server.mReleased + t.server.mFlushed = o.fifo.front
  sent : o.sent = o.fifo.past.map Prod.fst ++ o.fifo.queue
  heard : o.heard = o.fifo.delivered

theorem Sim.pending (h : Sim g t o p) : t.FlushPending ↔ o.fifo.flushes ≠ 0 :=
  h.stamped.ne_iff g.bits_le h.few

theorem add_mod_of_lt {P x i : Nat} (h : x % P + i < P) : x % P + i = (x + i) % P := by
  rw [Nat.add_mod, Nat.mod_eq_of_lt (by omega : i < P), Nat.mod_eq_of_lt h]

theorem serverFrames_eq (h : Sim g t o p) {n : Nat} (hn : n ≤ t.server.mUnreleased) :
    t.serverFrames g n = o.fifo.queue.take n := by
  have hle := h.inv.held.le
  have hch := h.inv.held.chunk
  rw [h.front, h.rear, Fifo.front, Fifo.rear] at hle
  rw [h.front] at hch
  apply List.ext_getElem
  · simp only [serverFrames, List.length_map, List.length_range, List.length_take]
    omega
  · intro i h₁ h₂
    have hi : i < n := by simpa [serverFrames] using h₁
    have hidx : g.ringIndex t.cblk.mFront + i = (o.fifo.front + i) % g.mFrameCountP2 := by
      rw [h.inv.core.front, g.ringIndex_ofNat, h.front]
      rcases Nat.lt_or_ge (o.fifo.front % g.mFrameCountP2 + i) g.mFrameCountP2 with hlt | hge
      · exact add_mod_of_lt hlt
      · omega
    simp only [serverFrames, List.getElem_map, List.getElem_range, List.getElem_take, hidx]
    exact h.ring i (by omega)

theorem Sim.view (h : Sim g t o p) : View g t o := by
  have hrl := h.inv.core.rear_le
  have hfits : o.fifo.queue.length ≤ g.mFrameCount := by
    rw [h.front, h.rear, Fifo.front, Fifo.rear] at hrl
    omega
  exact {
    sent := h.sent
    heard := h.heard
    front := h.front ▸ h.inv.core.front
    rear := h.rear ▸ h.inv.core.rear
    fits := hfits
    ring := h.ring
    held := fun n hn => serverFrames_eq h hn
    counts := h.counts
    pending := h.pending }

/-- Distinct positions less than a ring apart have distinct slots. -/
theorem slot_ne {P a b : Nat} (hab : a < b) (hb : b < a + P) : a % P ≠ b % P := by
  intro heq
  have hdvd : P ∣ b - a := (Nat.modEq_iff_dvd' hab.le).mp heq
  have := Nat.le_of_dvd (by omega) hdvd
  omega

theorem Sim.clientWrite (h : Sim g t o p) {i : Nat} (frame : α) (hi : i < t.client.mUnreleased) :
    Sim g (t.clientWrite g i frame) o p := by
  refine { h with inv := ⟨{ h.inv.core with }, { h.inv.held with }⟩, ring := ?_ }
  intro j hj
  have hrl := h.inv.core.rear_le
  have hch := h.inv.core.chunk
  have hF : g.mFrameCount ≤ g.mFrameCountP2 := g.frameCount_le
  have hidx : g.ringIndex t.cblk.mRear + i = (o.fifo.rear + i) % g.mFrameCountP2 := by
    rw [h.inv.core.rear, g.ringIndex_ofNat, h.rear]
    exact add_mod_of_lt (by rw [← h.rear]; omega)
  have hne : (o.fifo.front + j) % g.mFrameCountP2 ≠ (o.fifo.rear + i) % g.mFrameCountP2 := by
    rw [h.front, h.rear] at hrl
    refine slot_ne ?_ (by omega)
    rw [Fifo.front, Fifo.rear]
    omega
  simp only [Track.clientWrite, hidx, Function.update_of_ne hne]
  exact h.ring j hj

theorem clientFrames_ring (h : Sim g t o p) {n : Nat} (hn : n ≤ t.client.mUnreleased) {i : Nat}
    (hi : i < n) :
    t.mBuffers (g.ringIndex t.cblk.mRear + i) = t.mBuffers ((o.fifo.rear + i) % g.mFrameCountP2) := by
  have hch := h.inv.core.chunk
  rw [h.inv.core.rear, g.ringIndex_ofNat, h.rear, add_mod_of_lt (by rw [← h.rear]; omega)]

theorem Sim.clientReleaseBuffer (h : Sim g t o p) {n : Nat} (hn : n ≤ t.client.mUnreleased)
    {t' : Track α} (hs : t.clientReleaseBuffer g n = some t') :
    Sim g t' (o.step g t (.clientReleaseBuffer n)) { p with rear := p.rear + n } := by
  obtain ⟨t'', heq, hinv⟩ := h.inv.step (c := .clientReleaseBuffer n) hn trivial
  obtain rfl : t'' = t' := Option.some.inj (heq.symm.trans hs)
  have heq' := Option.some.inj (heq.symm.trans (h.inv.core.clientReleaseBuffer_eq hn))
  have hlen : (t.clientFrames g n).length = n := by simp [clientFrames]
  subst heq'
  exact {
    inv := hinv
    front := h.front
    rear := by simp [Tap.step, Fifo.push, Fifo.rear, hlen, h.rear, Nat.add_assoc]
    marked := by
      have := h.marked
      simp only [Tap.step, Fifo.push, List.length_append]
      omega
    flushAt := h.flushAt
    latest := h.latest
    stamped := h.stamped
    few := h.few
    ring := by
      intro i hi
      simp only [Tap.step, Fifo.push, Fifo.front, List.getElem_append]
      split
      · next hlt => exact h.ring i hlt
      · next hge =>
        have hi' : i - o.fifo.queue.length < n := by
          simp only [Tap.step, Fifo.push, List.length_append, hlen] at hi
          omega
        have hpos : o.fifo.rear + (i - o.fifo.queue.length) = o.fifo.past.length + i := by
          rw [Fifo.rear]
          omega
        simp only [clientFrames, List.getElem_map, List.getElem_range, clientFrames_ring h hn hi',
          hpos]
    counts := h.counts
    sent := by simp [Tap.step, Fifo.push, h.sent]
    heard := h.heard }

theorem Sim.flush (h : Sim g t o p) (hf : FewFlushes g o (.flush : Call α)) :
    Sim g (t.sendStreamingFlushStop g true) (o.step g t .flush)
      { p with flushAt := p.rear, stopAt := p.rear } := by
  exact { h with
    inv := h.inv.kept.flush.inv h.inv.held.chunk
    marked := le_rfl
    flushAt := fun _ => h.rear
    latest := fun _ => h.rear
    stamped := by
      change Word.Stamped _ t.server.mFlush (nextRequest g t.cblk.mFlush t.cblk.mRear) _
      rw [nextRequest_eq_stamp]
      exact h.stamped.stamp g.bits_le t.cblk.mRear
    few := by rw [← g.generations_eq]; exact hf }

theorem flushBufferIfNeeded_cblk (g : Geometry) (t : Track α) :
    (t.flushBufferIfNeeded g).cblk.mFlush = t.cblk.mFlush ∧
      (t.flushBufferIfNeeded g).mBuffers = t.mBuffers := by
  simp only [Track.flushBufferIfNeeded]
  split <;> exact ⟨rfl, rfl⟩

/-- A call that leaves the frames, the flush words and the counters alone. -/
theorem Sim.frame {t' : Track α} {p' : Pos} (h : Sim g t o p) (hinv : Inv g t' p')
    (hfront : p'.front = p.front) (hrear : p'.rear = p.rear) (hflushAt : p'.flushAt = p.flushAt)
    (hflush : t'.cblk.mFlush = t.cblk.mFlush) (hbuf : t'.mBuffers = t.mBuffers)
    (hserver : t'.server.mFlush = t.server.mFlush ∧ t'.server.mReleased = t.server.mReleased ∧
      t'.server.mFlushed = t.server.mFlushed) : Sim g t' o p' := by
  obtain ⟨hsf, hrel, hfl⟩ := hserver
  exact { h with
    inv := hinv
    front := hfront.trans h.front
    rear := hrear.trans h.rear
    flushAt := fun hp => by
      rw [FlushPending, hflush, hsf] at hp
      rw [hflushAt, h.flushAt hp]
    latest := fun hp => by
      rw [FlushPending, hflush, hsf] at hp
      rw [hflushAt, h.latest hp]
    stamped := by rw [hflush, hsf]; exact h.stamped
    ring := by rw [hbuf]; exact h.ring
    counts := by rw [hrel, hfl]; exact h.counts }

/-- Taking a flush discards the frames it covers. -/
theorem Sim.look (h : Sim g t o p) (hr : t.FlushPending → FlushInBlock g t) {t' : Track α}
    (hinv : Inv g t' (p.take t))
    (hcblk : t'.cblk.mFlush = t.cblk.mFlush) (hbuf : t'.mBuffers = t.mBuffers)
    (hserver : t'.server.mFlush = (t.flushBufferIfNeeded g).server.mFlush ∧
      t'.server.mReleased = (t.flushBufferIfNeeded g).server.mReleased ∧
      t'.server.mFlushed = (t.flushBufferIfNeeded g).server.mFlushed) :
    Sim g t' { o with fifo := o.fifo.look } (p.take t) := by
  obtain ⟨hsf, hrel, hfl⟩ := hserver
  by_cases hp : t.cblk.mFlush = t.server.mFlush
  -- no flush since the last look: nothing is taken on either side
  · have h0 : o.fifo.flushes = 0 := by
      by_contra hne
      exact h.pending.mpr hne hp
    have hlook : o.fifo.look = o.fifo := if_pos h0
    have htake : p.take t = p := if_pos hp
    have hsame : t.flushBufferIfNeeded g = t := if_pos hp
    rw [hsame] at hsf hrel hfl
    rw [hlook, htake]
    rw [htake] at hinv
    exact h.frame hinv rfl rfl rfl hcblk hbuf ⟨hsf, hrel, hfl⟩
  · have hlook : o.fifo.look = { o.fifo.leave o.fifo.marked false with flushes := 0 } :=
      if_neg (h.pending.mp hp)
    have htake : p.take t = { p with front := p.flushAt } := if_neg hp
    have hat := h.flushAt hp
    have hm := h.marked
    have hfront := o.fifo.leave_front false hm
    have hcore := h.inv.core.flushBufferIfNeeded_eq hp ((h.inv.core.flushInBlock_iff hp).mp (hr hp))
    rw [hcore] at hsf hrel hfl
    rw [htake] at hinv
    rw [hlook, htake]
    -- the front jumps to the latest flush, past every frame that was marked by one
    exact {
      inv := hinv
      front := hat.trans hfront.symm
      rear := h.rear.trans (o.fifo.leave_rear false hm).symm
      marked := by simp [Fifo.leave]
      flushAt := fun hne => absurd (hcblk.trans hsf.symm) hne
      latest := fun hne => absurd (hcblk.trans hsf.symm) hne
      stamped := by
        rw [hsf, hcblk]
        exact Word.Stamped.refl g.bits_le _
      few := Nat.two_pow_pos _
      ring := by
        intro i hi
        simp only [Fifo.leave, List.length_drop] at hi
        have hpos : o.fifo.front + o.fifo.marked + i = o.fifo.front + (o.fifo.marked + i) := by omega
        change t'.mBuffers (((o.fifo.leave o.fifo.marked false).front + i) % g.mFrameCountP2) = _
        rw [hfront, hbuf, hpos, h.ring _ (by omega)]
        simp [Fifo.leave]
      counts := by
        have hc := h.counts
        have hf := h.front
        change _ = (o.fifo.leave o.fifo.marked false).front
        rw [hfront, hrel, hfl]
        simp only
        omega
      sent := h.sent.trans (o.fifo.leave_sent _ _).symm
      heard := h.heard.trans
        ((o.fifo.leave_delivered o.fifo.marked false).trans (List.append_nil _)).symm }

theorem Sim.serverReleaseBuffer (h : Sim g t o p) {n : Nat} (hn : n ≤ t.server.mUnreleased)
    {t' : Track α} (hs : t.serverReleaseBuffer g n = some t') :
    Sim g t' (o.step g t (.serverReleaseBuffer n)) { p with front := p.front + n } := by
  obtain ⟨t'', heq, hinv⟩ := h.inv.step (c := .serverReleaseBuffer n) hn trivial
  obtain rfl : t'' = t' := Option.some.inj (heq.symm.trans hs)
  obtain ⟨_, _, hrel⟩ := h.inv.core.serverReleaseBuffer_eq h.inv.held.toWithin hn
  have heq' := Option.some.inj (heq.symm.trans hrel)
  have hheld := h.inv.held
  have hlen : n ≤ o.fifo.queue.length := by
    have hle := hheld.le
    rw [h.front, h.rear, Fifo.front, Fifo.rear] at hle
    omega
  have hfront := o.fifo.leave_front true hlen
  have hframes := serverFrames_eq h hn
  subst heq'
  exact {
    inv := hinv
    front := by simp only [Tap.step, Fifo.pop, hfront, h.front]
    rear := h.rear.trans (o.fifo.leave_rear true hlen).symm
    marked := by
      have := h.marked
      simp only [Tap.step, Fifo.pop, Fifo.leave, List.length_drop]
      omega
    flushAt := by
      intro hp
      -- a pending flush is beyond everything the server holds
      have hat := h.flushAt hp
      have hlim := hheld.flush hp
      have hf := h.front
      simp only [Tap.step, Fifo.pop, hfront]
      simp only [Fifo.leave]
      omega
    latest := h.latest
    stamped := h.stamped
    few := h.few
    ring := by
      intro i hi
      simp only [Tap.step, Fifo.pop, Fifo.leave, List.length_drop] at hi
      have hpos : o.fifo.front + n + i = o.fifo.front + (n + i) := by omega
      simp only [Tap.step, Fifo.pop, hfront, hpos, h.ring (n + i) (by omega)]
      simp [Fifo.leave]
    counts := by
      have hc := h.counts
      simp only [Tap.step, Fifo.pop, hfront]
      omega
    sent := h.sent.trans (o.fifo.leave_sent n true).symm
    heard := by
      have := o.fifo.leave_delivered n true
      simp only [Tap.step, Fifo.pop, h.heard, hframes, this, if_true] }

theorem Sim.fresh (g : Geometry) (mBuffers : Nat → α) :
    Sim g (Track.fresh g mBuffers) ⟨[], [], .empty, 0⟩ ⟨0, 0, 0, 0⟩ where
  inv := Inv.fresh g mBuffers
  front := rfl
  rear := rfl
  marked := le_rfl
  flushAt := fun _ => rfl
  latest := fun _ => rfl
  stamped := Word.Stamped.refl g.bits_le _
  few := Nat.two_pow_pos _
  ring := fun _ h => absurd h (Nat.not_lt_zero _)
  counts := rfl
  sent := rfl
  heard := rfl

theorem Sim.step (h : Sim g t o p) {c : Call α} {t' : Track α} (hp : t.Permitted c)
    (hs : Sound g t c) (hf : FewFlushes g o c) (hstep : t.step g c = some t') :
    Sim g t' (o.step g t c) (p.step t c) := by
  obtain ⟨t'', heq, hinv⟩ := h.inv.step hp hs
  obtain rfl : t'' = t' := Option.some.inj (heq.symm.trans hstep)
  -- calls that move no frame are `frame`; the others have a lemma each
  cases c with
  | clientObtainBuffer n =>
    obtain ⟨_, _, hspec, _, _⟩ := clientObtainBuffer_spec h.inv.core n
    have heq' := Option.some.inj ((if_neg (Nat.ne_of_gt hp)).symm.trans hstep)
    rw [hspec] at heq'
    subst heq'
    exact h.frame hinv rfl rfl rfl rfl rfl ⟨rfl, rfl, rfl⟩
  | clientWrite i frame =>
    cases hstep
    exact h.clientWrite frame hp
  | clientReleaseBuffer n => exact h.clientReleaseBuffer hp hstep
  | setBufferSizeInFrames size =>
    cases hstep
    exact h.frame hinv rfl rfl rfl rfl rfl ⟨rfl, rfl, rfl⟩
  | flush =>
    cases hstep
    exact h.flush hf
  | stop =>
    cases hstep
    exact h.frame hinv rfl rfl rfl rfl rfl ⟨rfl, rfl, rfl⟩
  | start =>
    cases hstep
    exact h.frame hinv rfl rfl rfl rfl rfl ⟨rfl, rfl, rfl⟩
  | serverObtainBuffer n =>
    obtain ⟨_, _, hspec, _, _⟩ := serverObtainBuffer_spec h.inv.core hs n
    have heq' := Option.some.inj ((if_neg (Nat.ne_of_gt hp)).symm.trans hstep)
    rw [hspec] at heq'
    subst heq'
    exact h.look hs.1 hinv (flushBufferIfNeeded_cblk g t).1 (flushBufferIfNeeded_cblk g t).2
      ⟨rfl, rfl, rfl⟩
  | serverReleaseBuffer n => exact h.serverReleaseBuffer hp hstep
  | framesReady =>
    have heq' := Option.some.inj hstep
    rw [h.inv.core.framesReady] at heq'
    subst heq'
    exact h
  | flushBufferIfNeeded =>
    cases hstep
    exact h.look hs.1 hinv (flushBufferIfNeeded_cblk g t).1 (flushBufferIfNeeded_cblk g t).2
      ⟨rfl, rfl, rfl⟩

theorem Sim.of_run {mBuffers : Nat → α}
    (hr : (tapped g mBuffers).Run
      (fun x c => x.1.Permitted c ∧ Sound g x.1 c ∧ FewFlushes g x.2 c) (t, o)) :
    ∃ p, Sim g t o p := by
  refine Machine.Run.observe_invariant (R := fun t o => ∃ p, Sim g t o p)
    ⟨_, Sim.fresh g mBuffers⟩ ?_ hr
  rintro t o c t' ⟨p, h⟩ ⟨hp, hs, hf⟩ hstep
  exact ⟨_, h.step hp hs hf hstep⟩

/-- Along every run of permitted, sound calls the track is a queue with flushes, and a
pending flush takes the front to the rear position of the latest one. -/
theorem streaming_refines_fifo (g : Geometry) (mBuffers : Nat → α)
    (hr : (tapped g mBuffers).Run
      (fun x c => x.1.Permitted c ∧ Sound g x.1 c ∧ FewFlushes g x.2 c) (t, o)) :
    View g t o ∧
      ((t.FlushPending → FlushInBlock g t) →
        (t.flushBufferIfNeeded g).cblk.mFront = BitVec.ofNat 32 o.fifo.look.front ∧
        (t.flushBufferIfNeeded g).server.mFlush = t.cblk.mFlush ∧
        (o.fifo.flushes ≠ 0 → o.fifo.look.front = o.flushedAt)) := by
  obtain ⟨p, h⟩ := Sim.of_run hr
  refine ⟨h.view, fun hreb => ?_⟩
  by_cases hp : t.cblk.mFlush = t.server.mFlush
  · have h0 : ¬o.fifo.flushes ≠ 0 := fun hne => h.pending.mpr hne hp
    have hlook : o.fifo.look = o.fifo := if_pos (not_not.mp h0)
    have hsame : t.flushBufferIfNeeded g = t := if_pos hp
    rw [hlook, hsame]
    exact ⟨h.view.front, hp.symm, fun hne => absurd hne h0⟩
  · have hne := h.pending.mp hp
    have hlook : o.fifo.look.front = p.flushAt := by
      rw [Fifo.look, if_neg hne, h.flushAt hp]
      exact o.fifo.leave_front false h.marked
    rw [h.inv.core.flushBufferIfNeeded_eq hp ((h.inv.core.flushInBlock_iff hp).mp (hreb hp)), hlook]
    exact ⟨rfl, rfl, fun _ => h.latest hp⟩

theorem streaming_refines_fifo_oneFrame :
    ∃ x : Track Nat × Tap Nat,
      (tapped oneFrame fun _ => 0).Run
        (fun x c => x.1.Permitted c ∧ Sound oneFrame x.1 c ∧ FewFlushes oneFrame x.2 c) x ∧
        x.2.sent = [7, 8] ∧ x.2.heard = [7] ∧ View oneFrame x.1 x.2 := by
  have hr := Machine.Run.of_exec (tapped oneFrame fun _ => 0)
    (fun x c => x.1.Permitted c ∧ Sound oneFrame x.1 c ∧ FewFlushes oneFrame x.2 c)
    [.clientObtainBuffer 1, .clientWrite 0 7, .clientReleaseBuffer 1, .serverObtainBuffer 1,
      .serverReleaseBuffer 1, .clientObtainBuffer 1, .clientWrite 0 8, .clientReleaseBuffer 1,
      .flush, .flush, .serverObtainBuffer 1] (by decide)
  exact ⟨_, hr, by decide, by decide, (streaming_refines_fifo oneFrame _ hr).1⟩

/-- The frame discarded by the flush is delivered all the same, and the front runs ahead of
the queue's. -/
theorem stale_release_delivers_flushed :
    ∃ x : Track Nat × Tap Nat,
      (tapped oneFrame fun _ => 0).Run (fun x c => x.1.Permitted c) x ∧
        x.2.fifo.delivered = [] ∧ x.2.heard = [7] ∧
        x.1.server.mReleased + x.1.server.mFlushed = 2 ∧ x.2.fifo.front = 1 := by
  have hr := Machine.Run.of_exec (tapped oneFrame fun _ => 0)
    (fun x c => x.1.Permitted c)
    [.clientObtainBuffer 1, .clientWrite 0 7, .clientReleaseBuffer 1, .serverObtainBuffer 1, .flush,
      .flushBufferIfNeeded, .serverReleaseBuffer 1] (by decide)
  exact ⟨_, hr, by decide, by decide, by decide, by decide⟩

end Track

end MediaFramework.Audio
