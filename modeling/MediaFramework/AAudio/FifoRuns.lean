import MediaFramework.AAudio.FifoBuffer
import Mathlib.Algebra.Ring.Nat
import Mathlib.Algebra.Ring.Int.Defs
import Mathlib.Data.BitVec

/-!
# The FIFO buffer is a bounded queue

Bytes that have been accepted come out in their order, whatever the calls.
-/

namespace MediaFramework.AAudio

variable {α : Type*} {capacity bytesPerFrame : Nat} {f : FifoBuffer α} {r w : Nat}

/-! ### The loops -/

theorem mul_bytesPerFrame_mod (p capacity bytesPerFrame : Nat) :
    p * bytesPerFrame % (capacity * bytesPerFrame) = p % capacity * bytesPerFrame :=
  Nat.mul_mod_mul_right bytesPerFrame p capacity

namespace FifoBuffer.Holds

/-- Frames of one part: no more than it has, and no more than are left. -/
theorem part_frames {m n : Nat} :
    (if (n : Int) > m then (m : Int) else n) = (min n m : Nat) ∧
      (n : Int) - (min n m : Nat) = (n - min n m : Nat) := by
  constructor
  · split <;> omega
  · omega

/-- What `read` takes out of parts that cover `a` frames from position `p` on. -/
theorem readParts (h : Holds capacity bytesPerFrame f r w) {parts : List Part} {a p : Nat}
    (hcovers : Covers capacity bytesPerFrame parts p a) (ha : a ≤ capacity) (n : Nat) :
    f.readParts parts n =
      (Ring.window f.mStorage (p * bytesPerFrame) (min n a * bytesPerFrame),
        ((n - min n a : Nat) : Int)) := by
  induction hcovers generalizing n with
  | done p data rest =>
    rw [Nat.min_zero, Nat.zero_mul, Ring.window_zero]
    exact if_neg (by simp)
  | last p =>
    rw [Nat.min_zero, Nat.zero_mul, Ring.window_zero]
    rfl
  | part p m a rest hpos hend _ ih =>
    by_cases hn : 0 < n
    · have hmin : min n (m + a) = min n m + min (n - min n m) a := by omega
      have hindex : p * bytesPerFrame % f.mStorage.length = p % capacity * bytesPerFrame := by
        rw [h.storage, mul_bytesPerFrame_mod]
      have hslice : Ring.window f.mStorage (p * bytesPerFrame) (min n m * bytesPerFrame) =
          Ring.slice f.mStorage (p % capacity * bytesPerFrame) (min n m * bytesPerFrame) := by
        rw [Ring.window_eq_slice, hindex]
        rw [hindex, h.storage, ← Nat.add_mul]
        exact Nat.mul_le_mul_right _ (by omega)
      have hadd : (min n m + min (n - min n m) a) * bytesPerFrame ≤ f.mStorage.length := by
        rw [h.storage]
        exact Nat.mul_le_mul_right _ (by omega)
      rw [Nat.add_mul] at hadd
      rw [FifoBuffer.readParts, if_pos ⟨by omega, by dsimp only; omega⟩]
      dsimp only
      rw [part_frames.1, part_frames.2, h.convertFramesToBytes (by omega), Option.getD_some,
        Int.toNat_natCast, Int.toNat_natCast, ih (by omega), ← hslice]
      have hrest : Ring.window f.mStorage ((p + m) * bytesPerFrame)
            (min (n - min n m) a * bytesPerFrame) =
          Ring.window f.mStorage (p * bytesPerFrame + min n m * bytesPerFrame)
            (min (n - min n m) a * bytesPerFrame) := by
        by_cases hall : n ≤ m
        · -- nothing is left for the parts behind
          have hzero : min (n - min n m) a = 0 := by omega
          rw [hzero, Nat.zero_mul, Ring.window_zero, Ring.window_zero]
        · rw [Nat.min_eq_right (Nat.le_of_not_le hall), Nat.add_mul]
      apply Prod.ext
      · dsimp only
        rw [hrest, ← Ring.window_add hadd, ← Nat.add_mul, hmin]
      · dsimp only
        rw [hmin, Nat.sub_add_eq]
    · obtain rfl : n = 0 := by omega
      rw [Nat.zero_min, Nat.zero_mul, Ring.window_zero]
      exact if_neg (by omega)

/-- What `write` puts into parts that cover `a` frames behind the `k` frames from position `p`
on. -/
theorem writeParts (h : Holds capacity bytesPerFrame f r w) {parts : List Part} {a p k : Nat}
    (hcovers : Covers capacity bytesPerFrame parts (p + k) a) (ha : k + a ≤ capacity) (n : Nat)
    {source storage : List α} (hsource : n * bytesPerFrame ≤ source.length)
    (hstorage : storage.length = capacity * bytesPerFrame) :
    ∃ storage', f.writeParts parts n source storage = (storage', ((n - min n a : Nat) : Int)) ∧
      storage'.length = capacity * bytesPerFrame ∧
      Ring.window storage' (p * bytesPerFrame) ((k + min n a) * bytesPerFrame) =
        Ring.window storage (p * bytesPerFrame) (k * bytesPerFrame) ++
          source.take (min n a * bytesPerFrame) := by
  generalize hq : p + k = q at hcovers
  induction hcovers generalizing n k source storage with
  | done q data rest =>
    rw [Nat.min_zero, Nat.zero_mul, List.take_zero, List.append_nil, Nat.add_zero, Nat.sub_zero]
    exact ⟨storage, if_neg (by simp), hstorage, rfl⟩
  | last q =>
    rw [Nat.min_zero, Nat.zero_mul, List.take_zero, List.append_nil, Nat.add_zero, Nat.sub_zero]
    exact ⟨storage, rfl, hstorage, rfl⟩
  | part q m a rest hpos hend _ ih =>
    by_cases hn : 0 < n
    · have hmin : min n (m + a) = min n m + min (n - min n m) a := by omega
      have hbytes := Nat.mul_le_mul_right bytesPerFrame (Nat.min_le_left n m)
      have hlength : (source.take (min n m * bytesPerFrame)).length = min n m * bytesPerFrame := by
        rw [List.length_take]
        omega
      have hindex : (p * bytesPerFrame + k * bytesPerFrame) % storage.length =
          q % capacity * bytesPerFrame := by
        rw [hstorage, ← Nat.add_mul, hq, mul_bytesPerFrame_mod]
      have hfits : q % capacity * bytesPerFrame + min n m * bytesPerFrame ≤ storage.length := by
        rw [hstorage, ← Nat.add_mul]
        exact Nat.mul_le_mul_right _ (by omega)
      have hroom : k * bytesPerFrame + (source.take (min n m * bytesPerFrame)).length ≤
          storage.length := by
        rw [hlength, hstorage, ← Nat.add_mul]
        exact Nat.mul_le_mul_right _ (by omega)
      have hpoke := Ring.window_poke hroom (by rw [hindex, hlength]; exact hfits)
      rw [hindex, hlength, ← Nat.add_mul] at hpoke
      rw [FifoBuffer.writeParts, if_pos ⟨by omega, by dsimp only; omega⟩]
      dsimp only
      rw [part_frames.1, part_frames.2, h.convertFramesToBytes (by omega), Option.getD_some,
        Int.toNat_natCast, Int.toNat_natCast, hmin]
      by_cases hall : n ≤ m
      · -- the source is used up
        have hzero : min (n - min n m) a = 0 := by omega
        have hleft : n - min n m = 0 := by omega
        refine ⟨_, ?_, (Ring.length_poke (by rw [hlength]; exact hfits)).trans hstorage, ?_⟩
        · rw [hleft, Nat.zero_min, Nat.add_zero, hleft]
          cases rest with
          | nil => rfl
          | cons part rest => exact if_neg (by omega)
        · rw [hzero, Nat.add_zero]
          exact hpoke
      · have hm : min n m = m := Nat.min_eq_right (Nat.le_of_not_le hall)
        rw [hm] at hpoke hlength hfits ⊢
        have hrest : (n - m) * bytesPerFrame ≤ (source.drop (m * bytesPerFrame)).length := by
          rw [List.length_drop, Nat.sub_mul]
          omega
        obtain ⟨storage', hwrite, hlength', hwindow⟩ := ih (k := k + m) (by omega) (n - m) hrest
          ((Ring.length_poke (by rw [hlength]; exact hfits)).trans hstorage) (by omega)
        refine ⟨storage', ?_, hlength', ?_⟩
        · rw [hwrite, Nat.sub_add_eq]
        · rw [← Nat.add_assoc, hwindow, hpoke, List.append_assoc, Nat.add_mul, List.take_add]
    · obtain rfl : n = 0 := by omega
      refine ⟨storage, if_neg (by omega), hstorage, ?_⟩
      rw [Nat.zero_min, Nat.zero_mul, List.take_zero, List.append_nil, Nat.add_zero]

/-! ### Calls -/

theorem getFullDataAvailable (h : Holds capacity bytesPerFrame f r w) :
    f.getFullDataAvailable =
      (((w - r : Nat) : Int), parts capacity bytesPerFrame (w - r) (r % capacity)) := by
  have hfull := h.full
  have hmin : min ((w - r : Nat) : Int) (capacity : Int) = (w - r : Nat) := by omega
  rw [FifoBuffer.getFullDataAvailable, h.fill, h.capacity_eq, hmin, h.readIndex]
  rw [h.fillWrappingBuffer (by omega) (Nat.mod_lt r h.positive)]

/-- There may be less than no room after the threshold has been lowered. -/
theorem getEmptyRoomAvailable (h : Holds capacity bytesPerFrame f r w) :
    f.getEmptyRoomAvailable =
      (f.mFifo.mThreshold - (w - r : Nat),
        parts capacity bytesPerFrame (f.mFifo.mThreshold - (w - r : Nat)).toNat (w % capacity)) := by
  have hthreshold := h.threshold
  have hmin : min (f.mFifo.mThreshold - (w - r : Nat)) (capacity : Int) =
      f.mFifo.mThreshold - (w - r : Nat) := by omega
  rw [FifoBuffer.getEmptyRoomAvailable, h.room, h.capacity_eq, hmin, h.writeIndex]
  by_cases hroom : 0 ≤ f.mFifo.mThreshold - (w - r : Nat)
  · have hnat : ((f.mFifo.mThreshold - (w - r : Nat)).toNat : Int) =
        f.mFifo.mThreshold - (w - r : Nat) := Int.toNat_of_nonneg hroom
    rw [← h.fillWrappingBuffer (by omega) (Nat.mod_lt w h.positive), hnat]
  · have hzero : (f.mFifo.mThreshold - (w - r : Nat)).toNat = 0 := by omega
    rw [hzero, FifoBuffer.fillWrappingBuffer, if_neg (by omega)]
    rfl

theorem read (h : Holds capacity bytesPerFrame f r w) (n : Nat) :
    f.read n =
        ({ f with mFifo := f.mFifo.advanceReadIndex (min n (w - r) : Nat) },
          Ring.window f.mStorage (r * bytesPerFrame) (min n (w - r) * bytesPerFrame),
          ((min n (w - r) : Nat) : Int)) ∧
      Holds capacity bytesPerFrame (f.read n).1 (r + min n (w - r)) w := by
  have hfull := h.full
  have hle := h.le
  have hparts := h.readParts (covers_parts r h.positive (by omega : w - r ≤ capacity)) (by omega) n
  have hframes : (n : Int) - (n - min n (w - r) : Nat) = (min n (w - r) : Nat) := by omega
  have hread : f.read n =
      ({ f with mFifo := f.mFifo.advanceReadIndex (min n (w - r) : Nat) },
        Ring.window f.mStorage (r * bytesPerFrame) (min n (w - r) * bytesPerFrame),
        ((min n (w - r) : Nat) : Int)) := by
    rw [FifoBuffer.read, h.getFullDataAvailable]
    dsimp only
    rw [hparts]
    dsimp only
    rw [hframes]
  refine ⟨hread, ?_⟩
  rw [hread]
  exact
    { bytesPerFrame_eq := h.bytesPerFrame_eq
      capacity_eq := h.capacity_eq
      storage := h.storage
      threshold := h.threshold
      readCounter := by
        rw [FifoController.advanceReadIndex, h.readCounter, BitVec.ofInt_natCast,
          BitVec.ofNat_add]
      writeCounter := h.writeCounter
      le := by omega
      full := by omega
      fits := h.fits
      positive := h.positive
      small := h.small
      bytes := h.bytes }

theorem write (h : Holds capacity bytesPerFrame f r w) (n : Nat) {source : List α}
    (hsource : n * bytesPerFrame ≤ source.length) :
    (f.write source n).2 = min n (f.mFifo.mThreshold - (w - r : Nat)).toNat ∧
      ∀ m, m = min n (f.mFifo.mThreshold - (w - r : Nat)).toNat → w + m < 2 ^ 64 →
        Holds capacity bytesPerFrame (f.write source n).1 r (w + m) ∧
        Ring.window (f.write source n).1.mStorage (r * bytesPerFrame)
            ((w + m - r) * bytesPerFrame) =
          Ring.window f.mStorage (r * bytesPerFrame) ((w - r) * bytesPerFrame) ++
            source.take (m * bytesPerFrame) := by
  have hfull := h.full
  have hle := h.le
  have hthreshold := h.threshold
  have hempty := h.getEmptyRoomAvailable
  generalize hroom : (f.mFifo.mThreshold - (w - r : Nat)).toNat = a at hempty ⊢
  have hw : r + (w - r) = w := by omega
  have hcovers : Covers capacity bytesPerFrame (parts capacity bytesPerFrame a (w % capacity))
      (r + (w - r)) a := by
    rw [hw]
    exact covers_parts w h.positive (by omega)
  obtain ⟨storage', hparts, hlength, hwindow⟩ :=
    h.writeParts hcovers (by omega) n hsource h.storage
  have hframes : (n : Int) - (n - min n a : Nat) = (min n a : Nat) := by omega
  have hwrite : f.write source n =
      ({ f with
        mStorage := storage'
        mFifo := f.mFifo.advanceWriteIndex (min n a : Nat) }, ((min n a : Nat) : Int)) := by
    rw [FifoBuffer.write, hempty]
    dsimp only
    rw [hparts]
    dsimp only
    rw [hframes]
  rw [hwrite]
  refine ⟨by omega, ?_⟩
  rintro m rfl hfits
  have hsum : w + min n a - r = w - r + min n a := by omega
  refine ⟨?_, by rw [hsum, hwindow]⟩
  exact
    { bytesPerFrame_eq := h.bytesPerFrame_eq
      capacity_eq := h.capacity_eq
      storage := hlength
      threshold := h.threshold
      readCounter := h.readCounter
      writeCounter := by
        rw [FifoController.advanceWriteIndex, h.writeCounter, BitVec.ofInt_natCast,
          BitVec.ofNat_add]
      le := by omega
      full := by omega
      fits := hfits
      positive := h.positive
      small := h.small
      bytes := h.bytes }

theorem setThreshold (h : Holds capacity bytesPerFrame f r w) (t : Int) :
    Holds capacity bytesPerFrame (f.setThreshold t) r w :=
  { h with
    threshold := by
      rw [FifoBuffer.setThreshold, FifoController.setThreshold, h.capacity_eq]
      dsimp only
      split
      · omega
      · split <;> omega }

end FifoBuffer.Holds

/-! ### Runs -/

/-- A write of frames from a source, a read, or a new threshold. -/
inductive Event (α : Type*)
  | write (source : List α) (n : Nat)
  | read (n : Nat)
  | setThreshold (t : Int)

/-- The source has all the frames that are to be written. -/
def Event.Valid (bytesPerFrame : Nat) : Event α → Prop
  | .write source n => n * bytesPerFrame ≤ source.length
  | _ => True

/-- A buffer with all bytes that it has accepted and returned, and the number of frames that have
been written. -/
structure Queue (α : Type*) where
  fifo : FifoBuffer α
  accepted : List α := []
  returned : List α := []
  written : Nat := 0

def Queue.step (q : Queue α) : Event α → Queue α
  | .write source n =>
    let (fifo, framesWritten) := q.fifo.write source n
    { q with
      fifo := fifo
      accepted := q.accepted ++ source.take (q.fifo.convertFramesToBytes framesWritten).toNat
      written := q.written + framesWritten.toNat }
  | .read n =>
    let (fifo, bytes, _) := q.fifo.read n
    { q with fifo := fifo, returned := q.returned ++ bytes }
  | .setThreshold t => { q with fifo := q.fifo.setThreshold t }

/-- An empty buffer with both counters at the same value. -/
def FifoBuffer.start (bytesPerFrame capacity : Nat) (counter : BitVec 64) (storage : List α) :
    FifoBuffer α where
  mBytesPerFrame := bytesPerFrame
  mStorage := storage
  mFifo := ⟨capacity, capacity, counter, counter⟩

def runQueue (f : FifoBuffer α) (events : List (Event α)) : Queue α :=
  events.foldl Queue.step { fifo := f }

/-- What has been accepted has been returned or is still in the buffer. -/
structure Queue.Keeps (capacity bytesPerFrame start : Nat) (q : Queue α) (r : Nat) : Prop where
  holds : FifoBuffer.Holds capacity bytesPerFrame q.fifo r (start + q.written)
  contents : q.accepted = q.returned ++ Ring.window q.fifo.mStorage (r * bytesPerFrame)
    ((start + q.written - r) * bytesPerFrame)

variable {start : Nat} {q : Queue α}

theorem written_le_step (q : Queue α) (e : Event α) : q.written ≤ (q.step e).written := by
  cases e with
  | write source n => exact Nat.le_add_right _ _
  | _ => exact Nat.le_refl _

theorem Queue.Keeps.step (h : q.Keeps capacity bytesPerFrame start r) (e : Event α)
    (hvalid : e.Valid bytesPerFrame) (hwrap : start + (q.step e).written < 2 ^ 64) :
    ∃ r', (q.step e).Keeps capacity bytesPerFrame start r' := by
  cases e with
  | write source n =>
    obtain ⟨hwritten, hnext⟩ := h.holds.write n hvalid
    generalize hm : min n (q.fifo.mFifo.mThreshold -
      (start + q.written - r : Nat)).toNat = m at hnext
    have hcount : (q.fifo.write source n).2 = m := by omega
    have hstep : q.step (.write source n) =
        { fifo := (q.fifo.write source n).1
          accepted := q.accepted ++ source.take (m * bytesPerFrame)
          returned := q.returned
          written := q.written + m } := by
      have hthreshold := h.holds.threshold
      rw [Queue.step]
      dsimp only
      rw [hcount, h.holds.convertFramesToBytes (by omega), Int.toNat_natCast, Int.toNat_natCast]
    rw [hstep] at hwrap ⊢
    obtain ⟨hholds, hwindow⟩ := hnext m rfl (by dsimp only at hwrap; omega)
    rw [Nat.add_assoc] at hholds hwindow
    refine ⟨r, hholds, ?_⟩
    dsimp only
    rw [hwindow, h.contents, List.append_assoc]
  | read n =>
    obtain ⟨hread, hholds⟩ := h.holds.read n
    have hle := h.holds.le
    have hfull := h.holds.full
    have hstep : q.step (.read n) =
        { q with
          fifo := (q.fifo.read n).1
          returned := q.returned ++ Ring.window q.fifo.mStorage (r * bytesPerFrame)
            (min n (start + q.written - r) * bytesPerFrame) } := by
      rw [Queue.step, hread]
    rw [hstep]
    refine ⟨_, hholds, ?_⟩
    have hsame : (q.fifo.read n).1.mStorage = q.fifo.mStorage := by rw [hread]
    have hsplit : start + q.written - r = min n (start + q.written - r) +
        (start + q.written - (r + min n (start + q.written - r))) := by omega
    have hbytes : min n (start + q.written - r) * bytesPerFrame +
        (start + q.written - (r + min n (start + q.written - r))) * bytesPerFrame ≤
          q.fifo.mStorage.length := by
      rw [h.holds.storage, ← Nat.add_mul]
      exact Nat.mul_le_mul_right _ (by omega)
    have hwindow := Ring.window_add (p := r * bytesPerFrame) hbytes
    rw [← Nat.add_mul, ← hsplit, ← Nat.add_mul] at hwindow
    dsimp only
    rw [hsame, h.contents, hwindow, List.append_assoc]
  | setThreshold t => exact ⟨r, h.holds.setThreshold t, h.contents⟩

theorem start_keeps (bytesPerFrame capacity : Nat) (counter : BitVec 64) {storage : List α}
    (hpos : 0 < capacity) (hsmall : capacity ≤ 2 ^ 30) (hbytes : capacity * bytesPerFrame < 2 ^ 31)
    (hstorage : storage.length = capacity * bytesPerFrame) :
    ({ fifo := .start bytesPerFrame capacity counter storage } : Queue α).Keeps capacity
      bytesPerFrame counter.toNat counter.toNat where
  holds :=
    { bytesPerFrame_eq := rfl
      capacity_eq := rfl
      storage := hstorage
      threshold := ⟨Int.natCast_nonneg _, Int.le_refl _⟩
      readCounter := (BitVec.ofNat_toNat 64 counter).symm
      writeCounter := (BitVec.ofNat_toNat 64 counter).symm
      le := le_rfl
      full := Nat.le_add_right _ _
      fits := counter.isLt
      positive := hpos
      small := hsmall
      bytes := hbytes }
  contents := by
    rw [Nat.add_zero, Nat.sub_self, Nat.zero_mul, Ring.window_zero]
    rfl

theorem written_le_foldl (events : List (Event α)) (q : Queue α) :
    q.written ≤ (events.foldl Queue.step q).written := by
  induction events generalizing q with
  | nil => exact le_rfl
  | cons e events ih => exact Nat.le_trans (written_le_step q e) (ih _)

theorem foldl_keeps {events : List (Event α)} {q : Queue α} {r : Nat}
    (h : q.Keeps capacity bytesPerFrame start r) (hvalid : ∀ e ∈ events, e.Valid bytesPerFrame)
    (hwrap : start + (events.foldl Queue.step q).written < 2 ^ 64) :
    ∃ r', (events.foldl Queue.step q).Keeps capacity bytesPerFrame start r' := by
  induction events generalizing q r with
  | nil => exact ⟨r, h⟩
  | cons e events ih =>
    obtain ⟨he, hevents⟩ := List.forall_mem_cons.mp hvalid
    have hle := written_le_foldl events (q.step e)
    rw [List.foldl_cons] at hwrap ⊢
    obtain ⟨r', hstep⟩ := h.step e he (by omega)
    exact ih hstep hevents hwrap

/-! ### Wrapping buffers -/

/-- The parts lie in the storage without overlap and add up to the frames that are reported. -/
structure InStorage (f : FifoBuffer α) (res : Int × List Part) : Prop where
  inside : ∀ part ∈ res.2, part.numFrames ≠ 0 → 0 < part.numFrames ∧ ∃ i ∈ part.data, 0 ≤ i ∧
    i + part.numFrames * f.mBytesPerFrame ≤ f.mStorage.length
  disjoint : res.2.Pairwise fun part part' => ∀ i ∈ part.data, ∀ i' ∈ part'.data,
    i + part.numFrames * f.mBytesPerFrame ≤ i' ∨ i' + part'.numFrames * f.mBytesPerFrame ≤ i
  total : (res.2.map (·.numFrames)).sum = max 0 res.1

theorem FifoBuffer.Holds.inStorage (h : Holds capacity bytesPerFrame f r w) {n i : Nat} {x : Int}
    (hn : n ≤ capacity) (hi : i < capacity) (hx : (n : Int) = max 0 x) :
    InStorage f (x, parts capacity bytesPerFrame n i) := by
  have hend {i m : Nat} (hm : i + m ≤ capacity) :
      ((i * bytesPerFrame : Nat) : Int) + (m : Int) * f.mBytesPerFrame ≤ f.mStorage.length := by
    have hle := Nat.mul_le_mul_right bytesPerFrame hm
    rw [Nat.add_mul] at hle
    rw [h.bytesPerFrame_eq, h.storage, ← Int.natCast_mul]
    omega
  rw [parts]
  split
  · next hzero => exact ⟨by simp, by simp, by simp [← hx, hzero]⟩
  · split
    · next hwrap =>
      constructor
      · intro part hpart _
        obtain rfl | hpart := List.mem_cons.mp hpart
        · exact ⟨by dsimp only; omega, _, rfl, Int.natCast_nonneg _, hend (by omega)⟩
        · obtain rfl := List.mem_singleton.mp hpart
          have hfirst := hend (i := 0) (m := n - (capacity - i)) (by omega)
          rw [Nat.zero_mul] at hfirst
          exact ⟨by dsimp only; omega, 0, rfl, Int.le_refl 0, hfirst⟩
      · refine List.pairwise_pair.mpr ?_
        rintro _ ⟨⟩ _ ⟨⟩
        -- the second part ends where the first one begins, or before
        have hle := Nat.mul_le_mul_right bytesPerFrame (by omega : n - (capacity - i) ≤ i)
        right
        rw [h.bytesPerFrame_eq, ← Int.natCast_mul]
        omega
      · simp only [List.map_cons, List.map_nil, List.sum_cons, List.sum_nil]
        omega
    · next hpos hfits =>
      constructor
      · intro part hpart hframes
        obtain rfl | hpart := List.mem_cons.mp hpart
        · exact ⟨by dsimp only; omega, _, rfl, Int.natCast_nonneg _, hend (by omega)⟩
        · obtain rfl := List.mem_singleton.mp hpart
          exact absurd rfl hframes
      · refine List.pairwise_pair.mpr ?_
        intro _ _ _ hnone
        cases hnone
      · simp only [List.map_cons, List.map_nil, List.sum_cons, List.sum_nil]
        omega

/-- A FIFO buffer is a bounded queue. `fill` frames are in it, which are those that have been
accepted and not returned. A call of `read` returns the first of them, and a call of `write` accepts
as many as the threshold leaves room for. -/
theorem runQueue_isQueue (bytesPerFrame capacity : Nat) (counter : BitVec 64) (storage : List α)
    (events : List (Event α)) (hpos : 0 < capacity) (hsmall : capacity ≤ 2 ^ 30)
    (hbytes : capacity * bytesPerFrame < 2 ^ 31)
    (hstorage : storage.length = capacity * bytesPerFrame)
    (hvalid : ∀ e ∈ events, e.Valid bytesPerFrame)
    (hwrap : counter.toNat +
      (runQueue (.start bytesPerFrame capacity counter storage) events).written < 2 ^ 64) :
    let q := runQueue (.start bytesPerFrame capacity counter storage) events
    ∃ fill : Nat, ∃ contents : List α,
      q.fifo.mFifo.getFullFramesAvailable = fill ∧ fill ≤ capacity ∧
      q.accepted = q.returned ++ contents ∧ contents.length = fill * bytesPerFrame ∧
      (∀ n : Nat, (q.fifo.read n).2 =
        (contents.take (min n fill * bytesPerFrame), ((min n fill : Nat) : Int))) ∧
      (∀ (n : Nat) (source : List α), n * bytesPerFrame ≤ source.length →
        (q.fifo.write source n).2 = min (n : Int) (max 0 (q.fifo.mFifo.mThreshold - fill))) ∧
      InStorage q.fifo q.fifo.getFullDataAvailable ∧
      InStorage q.fifo q.fifo.getEmptyRoomAvailable := by
  intro q
  have hkeeps : ∃ r, q.Keeps capacity bytesPerFrame counter.toNat r :=
    foldl_keeps (start_keeps bytesPerFrame capacity counter hpos hsmall hbytes hstorage) hvalid hwrap
  clear_value q
  obtain ⟨r, hholds, hcontents⟩ := hkeeps
  have hle := hholds.le
  have hfull := hholds.full
  have hthreshold := hholds.threshold
  have hlength : (counter.toNat + q.written - r) * bytesPerFrame ≤ q.fifo.mStorage.length := by
    rw [hholds.storage]
    exact Nat.mul_le_mul_right _ (by omega)
  refine ⟨counter.toNat + q.written - r, _, hholds.fill, by omega, hcontents,
    Ring.length_window hlength, ?_, ?_, ?_, ?_⟩
  · intro n
    have hmin := Nat.min_le_right n (counter.toNat + q.written - r)
    rw [(hholds.read n).1, Ring.take_window (Nat.mul_le_mul_right bytesPerFrame hmin)]
  · intro n source hsource
    rw [(hholds.write n hsource).1]
    omega
  · rw [hholds.getFullDataAvailable]
    exact hholds.inStorage (by omega) (Nat.mod_lt r hpos) (by omega)
  · rw [hholds.getEmptyRoomAvailable]
    exact hholds.inStorage (by omega) (Nat.mod_lt _ hpos) (by omega)

/-- Two frames of two bytes go in, one comes out, and two more go in across the end of the storage
of three frames. -/
theorem runQueue_isQueue_across :
    ∃ contents, contents.length = 3 * 2 ∧
      (runQueue (.start 2 3 5 (List.replicate 6 0)) [.write [1, 2, 3, 4] 2, .read 1,
        .setThreshold 9, .write [5, 6, 7, 8, 9] 2]).accepted = [1, 2] ++ contents := by
  have h := runQueue_isQueue 2 3 5 (List.replicate 6 0) [.write [1, 2, 3, 4] 2, .read 1,
    .setThreshold 9, .write [5, 6, 7, 8, 9] 2] (by decide) (by decide) (by decide) rfl
    (by simp [Event.Valid]) (by decide +kernel)
  obtain ⟨fill, contents, hfill, _, haccepted, hlength, _⟩ := h
  have hthree : (3 : Int) = fill := Eq.trans (by decide +kernel) hfill
  have hfill : fill = 3 := by omega
  rw [hfill] at hlength
  exact ⟨contents, hlength, haccepted.trans (congrArg (· ++ contents) (by decide +kernel))⟩

/-- With more than 2 ^ 30 frames the end of the room may not fit into 32 bits, and then the room is
one part that goes on behind the storage. Counters that go from -1 to 0 as signed numbers go back to
the start of the storage, and a frame that has been accepted is lost. -/
theorem large_capacity_and_negative_counters :
    (FifoBuffer.start 1 (2 ^ 30 + 1) (2 ^ 30) (List.replicate (2 ^ 30 + 1) 0)).getEmptyRoomAvailable
        = (2 ^ 30 + 1, [⟨some (2 ^ 30), 2 ^ 30 + 1⟩, ⟨none, 0⟩]) ∧
      (runQueue (.start 1 3 (-1) [0, 0, 0]) [.write [1] 1, .write [2] 1, .read 2]).accepted =
        [1, 2] ∧
      (runQueue (.start 1 3 (-1) [0, 0, 0]) [.write [1] 1, .write [2] 1, .read 2]).returned =
        [2, 0] := by
  decide +kernel

end MediaFramework.AAudio
