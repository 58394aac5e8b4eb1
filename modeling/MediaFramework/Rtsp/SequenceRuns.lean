import MediaFramework.Rtsp.SequenceNumbers
import Mathlib.Data.List.Pairwise

/-!
# Sequence numbers over a stream

Packets of one sender, of which some are lost, late or doubled, while others are taken out of the
queue.
-/

namespace MediaFramework.Rtsp.SequenceNumbers

variable {β : Type*}

/-- A buffer is queued at its place unless its number is queued already. -/
theorem insertBuffer_spec (buffer : Buffer β) {queue : List (Buffer β)}
    (hsorted : queue.Pairwise fun b b' => b.int32Data.toNat < b'.int32Data.toNat) :
    if ∃ b ∈ queue, b.int32Data = buffer.int32Data then insertBuffer buffer queue = (queue, false)
    else
      (insertBuffer buffer queue).2 = true ∧
        (insertBuffer buffer queue).1.Perm (buffer :: queue) ∧
        (insertBuffer buffer queue).1.Pairwise fun b b' => b.int32Data.toNat < b'.int32Data.toNat := by
  induction queue with
  | nil =>
    rw [if_neg (by simp)]
    exact ⟨rfl, .refl _, List.pairwise_singleton _ _⟩
  | cons b queue ih =>
    obtain ⟨hfirst, hrest⟩ := List.pairwise_cons.mp hsorted
    have ih := ih hrest
    rw [insertBuffer]
    by_cases hlt : b.int32Data.toNat < buffer.int32Data.toNat
    · have hne : b.int32Data ≠ buffer.int32Data := by
        intro heq
        rw [heq] at hlt
        exact Nat.lt_irrefl _ hlt
      have hiff : (∃ c ∈ b :: queue, c.int32Data = buffer.int32Data) ↔
          ∃ c ∈ queue, c.int32Data = buffer.int32Data := by
        simp [hne]
      rw [if_pos hlt]
      simp only [hiff]
      split at ih
      · next hqueued => rw [if_pos hqueued, ih]
      · next hqueued =>
        obtain ⟨hdone, hperm, hpairwise⟩ := ih
        rw [if_neg hqueued]
        refine ⟨hdone, (hperm.cons b).trans (.swap _ _ _), List.pairwise_cons.mpr ⟨?_, hpairwise⟩⟩
        intro c hc
        obtain rfl | hc := List.mem_cons.mp (hperm.mem_iff.mp hc)
        · exact hlt
        · exact hfirst c hc
    · rw [if_neg hlt]
      by_cases heq : b.int32Data = buffer.int32Data
      · rw [if_pos heq, if_pos ⟨b, List.mem_cons_self, heq⟩]
      · have hgt : buffer.int32Data.toNat < b.int32Data.toNat := by
          have hne : b.int32Data.toNat ≠ buffer.int32Data.toNat :=
            fun h => heq (BitVec.eq_of_toNat_eq h)
          omega
        have hall : ∀ c ∈ b :: queue, buffer.int32Data.toNat < c.int32Data.toNat := by
          intro c hc
          obtain rfl | hc := List.mem_cons.mp hc
          · exact hgt
          · exact Nat.lt_trans hgt (hfirst c hc)
        rw [if_neg heq, if_neg]
        · exact ⟨rfl, .refl _, List.pairwise_cons.mpr ⟨hall, hsorted⟩⟩
        · rintro ⟨c, hc, hce⟩
          have hltc := hall c hc
          rw [hce] at hltc
          exact Nat.lt_irrefl _ hltc

/-! ### Runs -/

/-- Packet `n` of the sender arrives, or the assembler takes a buffer out of the queue. -/
inductive Event
  | arrive (n : Int)
  | erase (i : Nat)
  deriving DecidableEq

/-- What is transmitted of a sequence number. -/
def lowBits (n : Int) : BitVec 32 := BitVec.ofNat 32 (n % 65536).toNat

/-- A packet that has arrived: its number, and what `queuePacket` did with it. -/
structure Arrival where
  packet : Int
  int32Data : BitVec 32
  queued : Bool
  before : List (Buffer Int)
  after : List (Buffer Int)
  deriving DecidableEq

structure Receiver where
  source : ARTPSource Int := {}
  arrivals : List Arrival := []
  deriving DecidableEq

def Receiver.step (r : Receiver) : Event → Receiver
  | .arrive n =>
    let (source, buffer, queued) := r.source.queuePacket ⟨lowBits n, n⟩
    { source
      arrivals := r.arrivals ++ [⟨n, buffer.int32Data, queued, r.source.mQueue, source.mQueue⟩] }
  | .erase i => { r with source := { r.source with mQueue := r.source.mQueue.eraseIdx i } }

def run (events : List Event) : Receiver := events.foldl Receiver.step {}

def packets (events : List Event) : List Int :=
  events.filterMap fun | .arrive n => some n | .erase _ => none

/-- Every packet is less than 2 ^ 15 away from the highest one that arrived before it. -/
def Near (events : List Event) : Prop :=
  ∀ pre n, pre ++ [.arrive n] <+: events → ∀ m ∈ packets pre, (∀ k ∈ packets pre, k ≤ m) →
    n < m + 2 ^ 15 ∧ m < n + 2 ^ 15

/-- The number of packet `n`, when the first one that arrived keeps its low bits. -/
def number (first n : Int) : Int := first % 65536 + (n - first)

/-- No packet comes from a block of 2 ^ 16 before that of the first one, nor from one too far
behind it. -/
def InRange (ps : List Int) : Prop :=
  ∀ first, ps.head? = some first → ∀ n ∈ ps, 0 ≤ number first n ∧ number first n < 2 ^ 32

theorem Near.nil : Near [] := by
  intro pre n hpre
  have hlength := hpre.length_le
  simp at hlength

theorem Near.append {events : List Event} {n : Int} (h : Near events)
    (hn : ∀ m ∈ packets events, (∀ k ∈ packets events, k ≤ m) → n < m + 2 ^ 15 ∧ m < n + 2 ^ 15) :
    Near (events ++ [.arrive n]) := by
  intro pre k hpre
  obtain heq | hpre := List.prefix_concat_iff.mp hpre
  · obtain ⟨rfl, hk⟩ := List.append_inj' heq rfl
    cases hk
    exact hn
  · exact h pre k hpre

theorem Near.erase {events : List Event} (h : Near events) (i : Nat) :
    Near (events ++ [.erase i]) := by
  intro pre k hpre
  obtain heq | hpre := List.prefix_concat_iff.mp hpre
  · cases (List.append_inj' heq rfl).2
  · exact h pre k hpre

/-- A packet is queued once unless it is queued already. -/
def Arrival.Inserted (a : Arrival) : Prop :=
  if ∃ b ∈ a.before, b.data = a.packet then a.queued = false ∧ a.after = a.before
  else a.queued = true ∧ a.after.Perm (⟨a.int32Data, a.packet⟩ :: a.before)

/-- The sequence numbers tell the packets apart and keep them in order. -/
structure Extended (r : Receiver) : Prop where
  same : ∀ a ∈ r.arrivals, ∀ b ∈ r.arrivals, a.int32Data = b.int32Data ↔ a.packet = b.packet
  sorted : r.source.mQueue.Pairwise fun b b' =>
    b.int32Data.toNat < b'.int32Data.toNat ∧ b.data < b'.data
  inserted : ∀ a ∈ r.arrivals, a.Inserted

/-- The packets `ps` have arrived, each with its number. -/
structure Tracked (first : Int) (ps : List Int) (r : Receiver) : Prop where
  arrivals : r.arrivals.map (·.packet) = ps
  count : r.source.mNumBuffersReceived = BitVec.ofNat 32 ps.length
  numbered : ∀ a ∈ r.arrivals, (a.int32Data.toNat : Int) = number first a.packet
  highest : ∃ m ∈ ps, (∀ k ∈ ps, k ≤ m) ∧
    (r.source.mHighestSeqNumber.toNat : Int) = number first m
  queue : ∀ b ∈ r.source.mQueue, (b.int32Data.toNat : Int) = number first b.data
  sorted : r.source.mQueue.Pairwise fun b b' => b.int32Data.toNat < b'.int32Data.toNat
  inserted : ∀ a ∈ r.arrivals, a.Inserted

variable {first n : Int} {ps : List Int} {r : Receiver}

theorem Tracked.extended (h : Tracked first ps r) : Extended r where
  same := by
    intro a ha b hb
    have hna := h.numbered a ha
    have hnb := h.numbered b hb
    rw [number] at hna hnb
    constructor
    · intro heq
      rw [heq] at hna
      omega
    · intro heq
      apply BitVec.eq_of_toNat_eq
      rw [heq] at hna
      omega
  sorted := by
    apply h.sorted.imp_of_mem
    intro b b' hb hb' hlt
    have hnb := h.queue b hb
    have hnb' := h.queue b' hb'
    rw [number] at hnb hnb'
    exact ⟨hlt, by omega⟩
  inserted := h.inserted

theorem lowBits_toNat (n : Int) : (lowBits n).toNat = (n % 65536).toNat := by
  rw [lowBits, BitVec.toNat_ofNat]
  omega

/-- The number that a packet near the highest one gets. -/
theorem Tracked.extended_number (h : Tracked first ps r)
    (hnear : ∀ m ∈ ps, (∀ k ∈ ps, k ≤ m) → n < m + 2 ^ 15 ∧ m < n + 2 ^ 15)
    (hrange : 0 ≤ number first n ∧ number first n < 2 ^ 32) :
    ((extendSeqNum r.source.mHighestSeqNumber (lowBits n)).toNat : Int) = number first n := by
  obtain ⟨m, hm, hmax, hhighest⟩ := h.highest
  obtain ⟨habove, hbelow⟩ := hnear m hm hmax
  have hlow := lowBits_toNat n
  have heq : (extendSeqNum r.source.mHighestSeqNumber (lowBits n)).toNat =
      (number first n).toNat := by
    rw [number] at hhighest hrange ⊢
    apply extendSeqNum_eq
    · rw [hlow]
      omega
    · omega
    · omega
  rw [heq]
  omega

theorem queuePacket_later {s : ARTPSource β} (buffer : Buffer β) (h : s.mNumBuffersReceived ≠ 0) :
    let seqNum := extendSeqNum s.mHighestSeqNumber buffer.int32Data
    let inserted := insertBuffer ⟨seqNum, buffer.data⟩ s.mQueue
    s.queuePacket buffer =
      ({ s with
        mNumBuffersReceived := s.mNumBuffersReceived + 1
        mHighestSeqNumber :=
          if seqNum.toNat > s.mHighestSeqNumber.toNat then seqNum else s.mHighestSeqNumber
        mQueue := inserted.1 }, ⟨seqNum, buffer.data⟩, inserted.2) := by
  rw [ARTPSource.queuePacket]
  exact if_neg h

/-- The packets that a queue holds are told apart by their numbers. -/
theorem exists_number_iff {queue : List (Buffer Int)} {e : BitVec 32}
    (hqueue : ∀ b ∈ queue, (b.int32Data.toNat : Int) = number first b.data)
    (he : (e.toNat : Int) = number first n) :
    (∃ b ∈ queue, b.int32Data = e) ↔ ∃ b ∈ queue, b.data = n := by
  have hone : ∀ b ∈ queue, b.int32Data = e ↔ b.data = n := by
    intro b hb
    have hnumber := hqueue b hb
    rw [number] at hnumber he
    constructor
    · intro heq
      rw [heq] at hnumber
      omega
    · intro heq
      apply BitVec.eq_of_toNat_eq
      rw [heq] at hnumber
      omega
  constructor
  · rintro ⟨b, hb, heq⟩
    exact ⟨b, hb, (hone b hb).mp heq⟩
  · rintro ⟨b, hb, heq⟩
    exact ⟨b, hb, (hone b hb).mpr heq⟩

theorem Tracked.count_ne_zero (h : Tracked first ps r) (hcount : ps.length < 2 ^ 32) :
    r.source.mNumBuffersReceived ≠ 0 := by
  obtain ⟨m, hm, _⟩ := h.highest
  have hpos := List.length_pos_of_mem hm
  intro hzero
  have hnat := congrArg BitVec.toNat (h.count.symm.trans hzero)
  rw [BitVec.toNat_ofNat, Nat.mod_eq_of_lt hcount] at hnat
  exact Nat.ne_of_gt hpos hnat

theorem Tracked.arrive (h : Tracked first ps r) (hcount : ps.length < 2 ^ 32)
    (hnear : ∀ m ∈ ps, (∀ k ∈ ps, k ≤ m) → n < m + 2 ^ 15 ∧ m < n + 2 ^ 15)
    (hrange : 0 ≤ number first n ∧ number first n < 2 ^ 32) :
    Tracked first (ps ++ [n]) (r.step (.arrive n)) := by
  have hnumber := h.extended_number hnear hrange
  have hinsert := insertBuffer_spec
    ⟨extendSeqNum r.source.mHighestSeqNumber (lowBits n), n⟩ h.sorted
  have hiff := exists_number_iff h.queue hnumber
  obtain ⟨m, hm, hmax, hhighest⟩ := h.highest
  rw [Receiver.step, queuePacket_later _ (h.count_ne_zero hcount)]
  dsimp only at hinsert ⊢
  generalize extendSeqNum r.source.mHighestSeqNumber (lowBits n) = e at hnumber hinsert hiff ⊢
  generalize insertBuffer ⟨e, n⟩ r.source.mQueue = inserted at hinsert ⊢
  simp only [hiff] at hinsert
  constructor
  · rw [List.map_append, h.arrivals]
    rfl
  · rw [h.count, List.length_append, BitVec.ofNat_add]
    rfl
  · intro a ha
    obtain ha | ha := List.mem_append.mp ha
    · exact h.numbered a ha
    · rw [List.mem_singleton.mp ha]
      exact hnumber
  · rw [number] at hhighest hnumber
    by_cases hgt : e.toNat > r.source.mHighestSeqNumber.toNat
    · refine ⟨n, List.mem_append_right _ List.mem_cons_self, ?_, ?_⟩
      · intro k hk
        obtain hk | hk := List.mem_append.mp hk
        · have hkm := hmax k hk
          omega
        · exact le_of_eq (List.mem_singleton.mp hk)
      · dsimp only
        rw [if_pos hgt, number]
        exact hnumber
    · refine ⟨m, List.mem_append_left _ hm, ?_, ?_⟩
      · intro k hk
        obtain hk | hk := List.mem_append.mp hk
        · exact hmax k hk
        · rw [List.mem_singleton.mp hk]
          omega
      · dsimp only
        rw [if_neg hgt, number]
        exact hhighest
  · intro b hb
    split at hinsert
    · rw [hinsert] at hb
      exact h.queue b hb
    · obtain rfl | hb := List.mem_cons.mp (hinsert.2.1.mem_iff.mp hb)
      · exact hnumber
      · exact h.queue b hb
  · split at hinsert
    · rw [hinsert]
      exact h.sorted
    · exact hinsert.2.2
  · intro a ha
    obtain ha | ha := List.mem_append.mp ha
    · exact h.inserted a ha
    · rw [List.mem_singleton.mp ha, Arrival.Inserted]
      dsimp only
      split at hinsert
      · next hqueued =>
        rw [if_pos hqueued, hinsert]
        exact ⟨rfl, rfl⟩
      · next hqueued =>
        rw [if_neg hqueued]
        exact ⟨hinsert.1, hinsert.2.1⟩

theorem Tracked.erase (h : Tracked first ps r) (i : Nat) : Tracked first ps (r.step (.erase i)) where
  arrivals := h.arrivals
  count := h.count
  numbered := h.numbered
  highest := h.highest
  queue := fun b hb => h.queue b (List.mem_of_mem_eraseIdx hb)
  sorted := h.sorted.sublist (List.eraseIdx_sublist _ i)
  inserted := h.inserted

/-- The first packet keeps its low bits. -/
theorem tracked_first (n : Int) : Tracked n [n] (Receiver.step {} (.arrive n)) := by
  have hlow := lowBits_toNat n
  have hnumber : ((lowBits n).toNat : Int) = number n n := by
    rw [number, hlow]
    omega
  constructor
  · rfl
  · rfl
  · intro a ha
    rw [List.mem_singleton.mp ha]
    exact hnumber
  · exact ⟨n, List.mem_cons_self, fun k hk => le_of_eq (List.mem_singleton.mp hk), hnumber⟩
  · intro b hb
    rw [List.mem_singleton.mp hb]
    exact hnumber
  · exact List.pairwise_singleton _ _
  · intro a ha
    rw [List.mem_singleton.mp ha, Arrival.Inserted, if_neg (by simp)]
    exact ⟨rfl, .refl _⟩

theorem run_append (events : List Event) (e : Event) : run (events ++ [e]) = (run events).step e := by
  rw [run, List.foldl_append]
  rfl

theorem packets_append (events events' : List Event) :
    packets (events ++ events') = packets events ++ packets events' :=
  List.filterMap_append

theorem run_of_packets_eq_nil {events : List Event} (h : packets events = []) : run events = {} := by
  induction events using List.reverseRecOn with
  | nil => rfl
  | append_singleton events e ih =>
    rw [packets_append] at h
    obtain ⟨hevents, he⟩ := List.append_eq_nil_iff.mp h
    rw [run_append, ih hevents]
    cases e with
    | arrive n => cases he
    | erase i => rfl

theorem InRange.of_append {ps' : List Int} (h : InRange (ps ++ ps')) : InRange ps := by
  intro first hfirst n hn
  apply h first _ n (List.mem_append_left _ hn)
  cases ps with
  | nil => cases hfirst
  | cons p ps => exact hfirst

/-- Every run in range numbers its packets from the first one on. -/
theorem tracked_run {events : List Event} (hnear : Near events)
    (hcount : (packets events).length < 2 ^ 32) (hrange : InRange (packets events))
    (hfirst : (packets events).head? = some first) :
    Tracked first (packets events) (run events) := by
  induction events using List.reverseRecOn with
  | nil => cases hfirst
  | append_singleton events e ih =>
    have hnear' : Near events :=
      fun pre n hpre => hnear pre n (hpre.trans (List.prefix_append _ _))
    rw [run_append]
    rw [packets_append] at hcount hrange hfirst ⊢
    have hlength : (packets events).length < 2 ^ 32 := by
      rw [List.length_append] at hcount
      omega
    by_cases hnone : packets events = []
    · rw [run_of_packets_eq_nil hnone]
      rw [hnone, List.nil_append] at hfirst ⊢
      cases e with
      | arrive n =>
        obtain rfl := Option.some.inj hfirst
        exact tracked_first n
      | erase i => cases hfirst
    · have hhead : (packets events).head? = some first := by
        rw [List.head?_append_of_ne_nil _ hnone] at hfirst
        exact hfirst
      have htracked := ih hnear' hlength hrange.of_append hhead
      cases e with
      | arrive n =>
        exact htracked.arrive hlength (hnear events n List.prefix_rfl)
          (hrange first hfirst n (List.mem_append_right _ List.mem_cons_self))
      | erase i =>
        rw [show packets [.erase i] = [] from rfl, List.append_nil]
        exact htracked.erase i

/-! ### Packets out of range -/

/-- The last arrival, with the queue before and after it. -/
def lastArrival (r : Receiver) (n : Int) : Arrival :=
  ⟨n, (r.source.queuePacket ⟨lowBits n, n⟩).2.1.int32Data,
    (r.source.queuePacket ⟨lowBits n, n⟩).2.2, r.source.mQueue,
    (r.step (.arrive n)).source.mQueue⟩

theorem lastArrival_mem (r : Receiver) (n : Int) :
    lastArrival r n ∈ (r.step (.arrive n)).arrivals :=
  List.mem_append_right _ List.mem_cons_self

theorem lastArrival_queued (hext : Extended (r.step (.arrive n))) :
    (∀ b ∈ r.source.mQueue, b ∈ (r.step (.arrive n)).source.mQueue) ∧
      ∃ b ∈ (r.step (.arrive n)).source.mQueue, b.data = n := by
  have hinserted := hext.inserted _ (lastArrival_mem r n)
  rw [Arrival.Inserted] at hinserted
  split at hinserted
  · next hqueued =>
    have hsame : (r.step (.arrive n)).source.mQueue = r.source.mQueue := hinserted.2
    rw [hsame]
    exact ⟨fun b hb => hb, hqueued⟩
  · have hperm := hinserted.2
    exact ⟨fun b hb => hperm.mem_iff.mpr (List.mem_cons_of_mem _ hb),
      _, hperm.mem_iff.mpr List.mem_cons_self, rfl⟩

/-- As long as the order is kept and nothing is taken out, every packet is queued. -/
theorem queued_run {events : List Event} (hkeep : ∀ i, .erase i ∉ events)
    (hext : ∀ pre, pre <+: events → Extended (run pre)) :
    ∀ k ∈ packets events, ∃ b ∈ (run events).source.mQueue, b.data = k := by
  induction events using List.reverseRecOn with
  | nil => exact fun k hk => absurd hk List.not_mem_nil
  | append_singleton events e ih =>
    have ih := ih (fun i hi => hkeep i (List.mem_append_left _ hi))
      (fun pre hpre => hext pre (hpre.trans (List.prefix_append _ _)))
    cases e with
    | erase i => exact absurd (List.mem_append_right _ List.mem_cons_self) (hkeep i)
    | arrive n =>
      have hlast := hext (events ++ [.arrive n]) List.prefix_rfl
      rw [run_append] at hlast ⊢
      obtain ⟨hold, hnew⟩ := lastArrival_queued hlast
      intro k hk
      rw [packets_append] at hk
      obtain hk | hk := List.mem_append.mp hk
      · obtain ⟨b, hb, hbk⟩ := ih k hk
        exact ⟨b, hold b hb, hbk⟩
      · rw [List.mem_singleton.mp hk]
        exact hnew

/-- Two packets in the queue are in the order of their numbers. -/
theorem Extended.lt_iff (hext : Extended r) {b b' : Buffer Int} (hb : b ∈ r.source.mQueue)
    (hb' : b' ∈ r.source.mQueue) (hne : b.data ≠ b'.data) :
    b.int32Data.toNat < b'.int32Data.toNat ↔ b.data < b'.data := by
  let R (b b' : Buffer Int) : Prop := b.int32Data.toNat < b'.int32Data.toNat ∧ b.data < b'.data
  have hsymm : Std.Symm fun b b' => R b b' ∨ R b' b := ⟨fun _ _ h => h.symm⟩
  have hdisj : r.source.mQueue.Pairwise fun b b' => R b b' ∨ R b' b :=
    hext.sorted.imp fun h => .inl h
  obtain h | h := hdisj.forall hb hb' fun heq => hne (congrArg _ heq)
  · exact ⟨fun _ => h.2, fun _ => h.1⟩
  · constructor
    · intro hlt
      exact absurd hlt (Nat.lt_asymm h.1)
    · intro hlt
      exact absurd hlt (not_lt_of_gt h.2)

/-- A packet out of range would be put in the wrong place. -/
theorem Tracked.inRange (h : Tracked first ps r) (hcount : ps.length < 2 ^ 32)
    (hnear : ∀ m ∈ ps, (∀ k ∈ ps, k ≤ m) → n < m + 2 ^ 15 ∧ m < n + 2 ^ 15)
    (hkept : ∀ k ∈ ps, ∃ b ∈ r.source.mQueue, b.data = k)
    (hext : Extended (r.step (.arrive n))) : 0 ≤ number first n ∧ number first n < 2 ^ 32 := by
  by_contra hout
  obtain ⟨m, hm, hmax, hhighest⟩ := h.highest
  obtain ⟨habove, hbelow⟩ := hnear m hm hmax
  obtain ⟨b, hb, hbm⟩ := hkept m hm
  have hnumber := h.queue b hb
  rw [hbm] at hnumber
  have hin : ∀ b ∈ r.source.mQueue, 0 ≤ number first b.data ∧ number first b.data < 2 ^ 32 := by
    intro b hb
    have hlt := b.int32Data.isLt
    rw [← h.queue b hb]
    omega
  have hne : m ≠ n := by
    rintro rfl
    exact hout (hbm ▸ hin b hb)
  -- the new packet is not queued yet, so it is queued now
  have hinserted := hext.inserted _ (lastArrival_mem r n)
  rw [Arrival.Inserted, if_neg] at hinserted
  · have hnew := hinserted.2.mem_iff.mpr List.mem_cons_self
    have horder := hext.lt_iff (hinserted.2.mem_iff.mpr (List.mem_cons_of_mem _ hb)) hnew
      (fun heq => hne (hbm.symm.trans heq))
    have hqueue := queuePacket_later ⟨lowBits n, n⟩ (h.count_ne_zero hcount)
    have hlow := lowBits_toNat n
    have hh := r.source.mHighestSeqNumber.isLt
    have hassigned : (lastArrival r n).int32Data =
        extendSeqNum r.source.mHighestSeqNumber (lowBits n) := by
      rw [lastArrival, hqueue]
    rw [hassigned, hbm] at horder
    rw [number] at hhighest hnumber hout
    have horder : b.int32Data.toNat <
        (extendSeqNum r.source.mHighestSeqNumber (lowBits n)).toNat ↔ m < n := horder
    by_cases hneg : first % 65536 + (n - first) < 0
    · rw [extendSeqNum_below (by omega) (by omega), hlow] at horder
      omega
    · rw [extendSeqNum_above (by omega) (by omega), hlow] at horder
      omega
  · rintro ⟨b, hb, hbn⟩
    have hbn : b.data = n := hbn
    exact hout (hbn ▸ hin b hb)

theorem inRange_of_extended {events : List Event} (hnear : Near events)
    (hcount : (packets events).length < 2 ^ 32) (hkeep : ∀ i, .erase i ∉ events)
    (hext : ∀ pre, pre <+: events → Extended (run pre)) : InRange (packets events) := by
  induction events using List.reverseRecOn with
  | nil =>
    intro first hfirst
    cases hfirst
  | append_singleton events e ih =>
    have hnear' : Near events :=
      fun pre n hpre => hnear pre n (hpre.trans (List.prefix_append _ _))
    have hext' : ∀ pre, pre <+: events → Extended (run pre) :=
      fun pre hpre => hext pre (hpre.trans (List.prefix_append _ _))
    have hkeep' : ∀ i, .erase i ∉ events := fun i hi => hkeep i (List.mem_append_left _ hi)
    rw [packets_append] at hcount ⊢
    have hlength : (packets events).length < 2 ^ 32 := by
      rw [List.length_append] at hcount
      omega
    have hrange := ih hnear' hlength hkeep' hext'
    cases e with
    | erase i => exact absurd (List.mem_append_right _ List.mem_cons_self) (hkeep i)
    | arrive n =>
      intro first hfirst k hk
      by_cases hnone : packets events = []
      · rw [hnone, List.nil_append] at hfirst hk
        obtain rfl := Option.some.inj hfirst
        obtain rfl := List.mem_singleton.mp hk
        rw [number]
        omega
      · rw [List.head?_append_of_ne_nil _ hnone] at hfirst
        have htracked := tracked_run hnear' hlength hrange hfirst
        have hlast := hext (events ++ [.arrive n]) List.prefix_rfl
        rw [run_append] at hlast
        obtain hk | hk := List.mem_append.mp hk
        · exact hrange first hfirst k hk
        · rw [List.mem_singleton.mp hk]
          exact htracked.inRange hlength (hnear events n List.prefix_rfl)
            (queued_run hkeep' hext') hlast

/-- The numbers are right for streams that stay in range. As long as nothing is taken out of the
queue, they are right for no others. -/
theorem extended_run_iff (events : List Event) (hnear : Near events)
    (hcount : (packets events).length < 2 ^ 32) :
    (InRange (packets events) → ∀ pre, pre <+: events → Extended (run pre)) ∧
      ((∀ i, .erase i ∉ events) → (∀ pre, pre <+: events → Extended (run pre)) →
        InRange (packets events)) := by
  refine ⟨?_, inRange_of_extended hnear hcount⟩
  rintro hrange pre ⟨rest, rfl⟩
  rw [packets_append] at hcount hrange
  rw [List.length_append] at hcount
  have hnear' : Near pre := fun pre' n hpre => hnear pre' n (hpre.trans (List.prefix_append _ _))
  cases hfirst : (packets pre).head? with
  | none =>
    rw [run_of_packets_eq_nil (List.head?_eq_none_iff.mp hfirst)]
    exact ⟨fun a ha => absurd ha List.not_mem_nil, List.Pairwise.nil,
      fun a ha => absurd ha List.not_mem_nil⟩
  | some first => exact (tracked_run hnear' (by omega) hrange.of_append hfirst).extended

/-- Packets on both sides of a wrap, one of them late and one of them twice. -/
theorem extended_run_iff_wrap :
    Extended (run [.arrive 65530, .arrive 65540, .erase 0, .arrive 65533, .arrive 65540]) := by
  have hfirst := (Near.nil.append (n := 65530) (by decide)).append (n := 65540) (by decide)
  have hnear := ((hfirst.erase 0).append (n := 65533) (by decide)).append (n := 65540) (by decide)
  refine (extended_run_iff _ hnear (by decide)).1 ?_ _ List.prefix_rfl
  intro first hfirst
  cases hfirst
  decide

/-- A packet that was sent 10 before the first one to arrive comes out 65526 above it. -/
theorem earlier_packet_not_extended :
    Near [.arrive 65541, .arrive 65531] ∧ ¬Extended (run [.arrive 65541, .arrive 65531]) := by
  constructor
  · exact (Near.nil.append (n := 65541) (by decide)).append (n := 65531) (by decide)
  · intro hext
    exact absurd hext.sorted (by decide)

end MediaFramework.Rtsp.SequenceNumbers
