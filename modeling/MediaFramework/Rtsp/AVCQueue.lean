import MediaFramework.Rtsp.AVCReads
import Mathlib.Data.List.TakeWhile
import MediaFramework.Lib.Machine

/-!
# The queue of the assembler

What each call of `assembleMore` takes off the queue and what it expects next, for packets of any
contents, and the loop of `onPacketReceived` over it.
-/

namespace MediaFramework.Rtsp

/-- The numbers on the queue increase. -/
def Increasing (queue : List ABuffer) : Prop :=
  queue.Pairwise fun b c => b.seqNo.toNat < c.seqNo.toNat

instance (queue : List ABuffer) : Decidable (Increasing queue) :=
  inferInstanceAs (Decidable (queue.Pairwise _))

/-- Something was assembled or thrown away. -/
def AssemblyStatus.Advanced (status : AssemblyStatus) : Prop :=
  status = .OK ∨ status = .MALFORMED_PACKET

namespace AAVCAssembler

variable {a : AAVCAssembler} {buffer : ABuffer} {queue rest : List ABuffer}

/-- The two assemblers expect the same packet. -/
def SameNext (a a' : AAVCAssembler) : Prop :=
  a'.mNextExpectedSeqNo = a.mNextExpectedSeqNo ∧
    a'.mNextExpectedSeqNoValid = a.mNextExpectedSeqNoValid

theorem SameNext.trans {a' a'' : AAVCAssembler} (h : a.SameNext a') (h' : a'.SameNext a'') :
    a.SameNext a'' :=
  ⟨h'.1.trans h.1, h'.2.trans h.2⟩

theorem sameNext_addSingleNALUnit (a : AAVCAssembler) (buffer : ABuffer) :
    a.SameNext (a.addSingleNALUnit buffer) := by
  rw [addSingleNALUnit]
  split
  · rw [submitAccessUnit]
    split <;> exact ⟨rfl, rfl⟩
  · exact ⟨rfl, rfl⟩

theorem sameNext_addAggregated (a : AAVCAssembler) (buffer : ABuffer) (data : List (BitVec 8)) :
    a.SameNext (a.addAggregated buffer data).1 := by
  induction a, data using addAggregated.induct buffer with
  | case1 a data h =>
    rw [addAggregated, dif_pos h]
    exact ⟨rfl, rfl⟩
  | case2 a data h nalSize hshort =>
    rw [addAggregated, dif_neg h, if_pos hshort]
    exact ⟨rfl, rfl⟩
  | case3 a data h nalSize hlong ih =>
    rw [addAggregated, dif_neg h, if_neg hlong]
    exact (sameNext_addSingleNALUnit a _).trans ih

/-! ### One call -/

/-- The result of a call on a queue whose first packet is the expected one: `removed` was taken
off, and the packet after the last one of them is expected next; or nothing has changed. -/
structure Takes (a : AAVCAssembler) (queue : List ABuffer)
    (res : AAVCAssembler × List ABuffer × AssemblyStatus) (removed : List ABuffer) : Prop where
  split : queue = removed ++ res.2.1
  advanced : res.2.2.Advanced →
    ∃ last ∈ removed.getLast?, res.1.mNextExpectedSeqNo = last.seqNo + 1
  waiting : ¬res.2.2.Advanced →
    removed = [] ∧ res.1.mNextExpectedSeqNo = a.mNextExpectedSeqNo
  valid : res.1.mNextExpectedSeqNoValid = a.mNextExpectedSeqNoValid

/-- Only the expected packet is taken off. -/
theorem takes_first {a' : AAVCAssembler} {status : AssemblyStatus} (hstatus : status.Advanced)
    (hnext : buffer.seqNo = a.mNextExpectedSeqNo) (hsame : a.SameNext a') :
    Takes a (buffer :: rest)
      ({ a' with mNextExpectedSeqNo := a'.mNextExpectedSeqNo + 1 }, rest, status) [buffer] where
  split := rfl
  advanced _ := ⟨buffer, rfl, by rw [hsame.1, hnext]⟩
  waiting h := absurd hstatus h
  valid := hsame.2

/-- Several packets are taken off, up to number `k` behind the first one. -/
theorem takes_many {a' : AAVCAssembler} {status : AssemblyStatus} {b : ABuffer} {k : Nat}
    (hstatus : status.Advanced) (hb : (buffer :: rest)[k]? = some b)
    (hnext : a'.mNextExpectedSeqNo = b.seqNo + 1)
    (hvalid : a'.mNextExpectedSeqNoValid = a.mNextExpectedSeqNoValid) :
    Takes a (buffer :: rest) (a', (buffer :: rest).drop (k + 1), status)
      ((buffer :: rest).take (k + 1)) where
  split := (List.take_append_drop _ _).symm
  advanced _ := by
    refine ⟨b, ?_, hnext⟩
    rw [List.take_add_one, hb, Option.toList_some, List.getLast?_concat]
    rfl
  waiting h := absurd hstatus h
  valid := hvalid

theorem addFragmentedNALUnit_takes (hnext : buffer.seqNo = a.mNextExpectedSeqNo) :
    ∃ removed, Takes a (buffer :: rest) (a.addFragmentedNALUnit buffer rest) removed := by
  rw [addFragmentedNALUnit]
  dsimp only
  split
  · exact ⟨_, takes_first (.inr rfl) hnext ⟨rfl, rfl⟩⟩
  split
  · exact ⟨_, takes_first (.inr rfl) hnext ⟨rfl, rfl⟩⟩
  by_cases hend : buffer.data.getD 1 0 &&& 0x40 ≠ 0
  · -- the first fragment is the last one as well
    rw [if_pos hend]
    have hsame := sameNext_addSingleNALUnit { a with mNextExpectedSeqNo := buffer.seqNo + 1 }
    exact ⟨_, takes_many (k := 0) (.inl rfl) rfl (hsame _).1 (hsame _).2⟩
  · rw [if_neg hend]
    cases hfragments : scanFragments (buffer.data.getD 0 0) (buffer.data.getD 1 0 &&& 0x1f) rest 1
        (buffer.seqNo + 1) with
    | incomplete =>
      refine ⟨[], rfl, ?_, fun _ => ⟨rfl, rfl⟩, rfl⟩
      rintro (hstatus | hstatus) <;> cases hstatus
    | wrongSequence =>
      refine ⟨[], rfl, ?_, fun _ => ⟨rfl, rfl⟩, rfl⟩
      rintro (hstatus | hstatus) <;> cases hstatus
    | malformed totalCount expectedSeqNo =>
      obtain ⟨k, b, rfl, hb, rfl⟩ := scanFragments_spec.2 _ _ hfragments
      refine ⟨_, takes_many (k := 1 + k) (.inr rfl) ?_ rfl rfl⟩
      rw [Nat.add_comm 1 k, List.getElem?_cons_succ, hb]
    | complete totalCount expectedSeqNo =>
      obtain ⟨k, b, rfl, hb, rfl, -⟩ := scanFragments_spec.1 _ _ hfragments
      have hsame := sameNext_addSingleNALUnit { a with mNextExpectedSeqNo := b.seqNo + 1 }
      refine ⟨_, takes_many (k := 1 + k) (.inl rfl) ?_ (hsame _).1 (hsame _).2⟩
      rw [Nat.add_comm 1 k, List.getElem?_cons_succ, hb]

theorem addBuffer_takes (hnext : buffer.seqNo = a.mNextExpectedSeqNo) :
    ∃ removed, Takes a (buffer :: rest) (a.addBuffer buffer rest) removed := by
  rw [addBuffer]
  dsimp only
  split
  · exact ⟨_, takes_first (.inr rfl) hnext ⟨rfl, rfl⟩⟩
  split
  · exact ⟨_, takes_first (.inl rfl) hnext (sameNext_addSingleNALUnit a buffer)⟩
  split
  · exact addFragmentedNALUnit_takes hnext
  split
  · have hsame : a.SameNext (a.addSingleTimeAggregationPacket buffer).1 := by
      rw [addSingleTimeAggregationPacket]
      split
      · exact ⟨rfl, rfl⟩
      · exact sameNext_addAggregated _ _ _
    refine ⟨_, takes_first ?_ hnext hsame⟩
    split
    · exact .inl rfl
    · exact .inr rfl
  split
  · exact ⟨_, takes_first (.inl rfl) hnext ⟨rfl, rfl⟩⟩
  · exact ⟨_, takes_first (.inr rfl) hnext ⟨rfl, rfl⟩⟩

/-- What a call of `assembleMore` does to the queue and to the number expected next. -/
structure Assembles (a : AAVCAssembler) (queue : List ABuffer)
    (res : AAVCAssembler × List ABuffer × AssemblyStatus) (removed : List ABuffer) : Prop where
  split : queue = removed ++ res.2.1
  advanced : res.2.2.Advanced →
    ∃ last ∈ removed.getLast?, res.1.mNextExpectedSeqNo = last.seqNo + 1 ∧
      (a.mNextExpectedSeqNoValid → a.mNextExpectedSeqNo.toNat ≤ last.seqNo.toNat)
  waiting : ¬res.2.2.Advanced →
    (∀ b ∈ removed, a.mNextExpectedSeqNoValid ∧ b.seqNo.toNat < a.mNextExpectedSeqNo.toNat) ∧
      (a.mNextExpectedSeqNoValid → res.1.mNextExpectedSeqNo = a.mNextExpectedSeqNo)
  valid : res.1.mNextExpectedSeqNoValid ∨
    ¬a.mNextExpectedSeqNoValid ∧ res = (a, [], .NOT_ENOUGH_DATA)

/-- Packets below the expected number go first. -/
theorem Takes.assembles {stale removed : List ABuffer}
    {res : AAVCAssembler × List ABuffer × AssemblyStatus}
    (hvalid : a.mNextExpectedSeqNoValid) (hstale : ∀ b ∈ stale,
      b.seqNo.toNat < a.mNextExpectedSeqNo.toNat)
    (hnext : buffer.seqNo = a.mNextExpectedSeqNo) (hqueue : queue = stale ++ buffer :: rest)
    (hincreasing : Increasing queue) (h : Takes a (buffer :: rest) res removed) :
    Assembles a queue res (stale ++ removed) where
  split := by rw [hqueue, h.split, List.append_assoc]
  advanced hstatus := by
    obtain ⟨last, hlast, heq⟩ := h.advanced hstatus
    refine ⟨last, ?_, heq, fun _ => ?_⟩
    · rw [List.getLast?_append, Option.mem_def.mp hlast]
      rfl
    · -- the last packet is the expected one or one behind it
      have hmem : last ∈ buffer :: rest := by
        rw [h.split]
        exact List.mem_append_left _ (List.mem_of_getLast? hlast)
      rw [← hnext]
      rcases List.mem_cons.mp hmem with rfl | hrest
      · exact Nat.le_refl _
      · rw [hqueue] at hincreasing
        have htail := (List.pairwise_append.mp hincreasing).2.1
        exact Nat.le_of_lt (List.rel_of_pairwise_cons htail hrest)
  waiting hstatus := by
    obtain ⟨rfl, heq⟩ := h.waiting hstatus
    rw [List.append_nil]
    exact ⟨fun b hb => ⟨hvalid, hstale b hb⟩, fun _ => heq⟩
  valid := .inl (h.valid.trans hvalid)

theorem assembles_addNALUnit (h : Increasing queue) :
    ∃ removed, Assembles a queue (a.addNALUnit queue) removed := by
  rw [addNALUnit]
  by_cases hvalid : a.mNextExpectedSeqNoValid
  · simp only [hvalid, if_true]
    have hstale : ∀ b ∈ queue.takeWhile fun b => b.seqNo.toNat < a.mNextExpectedSeqNo.toNat,
        b.seqNo.toNat < a.mNextExpectedSeqNo.toNat := by
      intro b hb
      have hbelow := List.mem_takeWhile_imp hb
      exact of_decide_eq_true hbelow
    have hqueue := (List.takeWhile_append_dropWhile (l := queue)
      (p := fun b => decide (b.seqNo.toNat < a.mNextExpectedSeqNo.toNat))).symm
    cases hleft : queue.dropWhile fun b => b.seqNo.toNat < a.mNextExpectedSeqNo.toNat with
    | nil =>
      rw [hleft] at hqueue
      refine ⟨_, hqueue, ?_, fun _ => ⟨fun b hb => ⟨hvalid, hstale b hb⟩, fun _ => rfl⟩,
        .inl hvalid⟩
      rintro (hstatus | hstatus) <;> cases hstatus
    | cons buffer rest =>
      rw [hleft] at hqueue
      dsimp only
      split
      · refine ⟨_, hqueue, ?_, fun _ => ⟨fun b hb => ⟨hvalid, hstale b hb⟩, fun _ => rfl⟩,
          .inl hvalid⟩
        rintro (hstatus | hstatus) <;> cases hstatus
      next hnext =>
      rw [ne_eq, not_not] at hnext
      obtain ⟨_, htakes⟩ := addBuffer_takes hnext
      exact ⟨_, htakes.assembles hvalid hstale hnext hqueue h⟩
  · simp only [hvalid]
    cases queue with
    | nil =>
      refine ⟨[], rfl, ?_, fun _ => ⟨fun _ hb => absurd hb List.not_mem_nil, fun _ => rfl⟩,
        .inr ⟨hvalid, rfl⟩⟩
      rintro (hstatus | hstatus) <;> cases hstatus
    | cons buffer rest =>
      -- the first packet of all sets the number
      have hfirst : buffer.seqNo = { a with
          mNextExpectedSeqNoValid := true
          mNextExpectedSeqNo := buffer.seqNo }.mNextExpectedSeqNo := rfl
      obtain ⟨_, htakes⟩ := addBuffer_takes hfirst
      refine ⟨_, htakes.split, fun hstatus => ?_, fun hstatus => ?_, .inl htakes.valid⟩
      · obtain ⟨last, hlast, heq⟩ := htakes.advanced hstatus
        exact ⟨last, hlast, heq, fun h => absurd h hvalid⟩
      · obtain ⟨rfl, -⟩ := htakes.waiting hstatus
        exact ⟨fun _ hb => absurd hb List.not_mem_nil, fun h => absurd h hvalid⟩

theorem assembles_assembleMore (h : Increasing queue) :
    ∃ removed, Assembles a queue (a.assembleMore queue) removed := by
  obtain ⟨removed, hadd⟩ := assembles_addNALUnit (a := a) h
  refine ⟨removed, ?_⟩
  rw [assembleMore]
  dsimp only
  split
  next hmalformed =>
    refine ⟨hadd.split, hadd.advanced, hadd.waiting, hadd.valid.imp_right ?_⟩
    rintro ⟨-, heq⟩
    rw [heq] at hmalformed
    cases hmalformed
  · exact hadd

/-- The number goes down only where it wraps, past the last number there is. -/
theorem Assembles.next_le {res : AAVCAssembler × List ABuffer × AssemblyStatus}
    {removed : List ABuffer} (h : Assembles a queue res removed)
    (hfresh : ¬a.mNextExpectedSeqNoValid → a.mNextExpectedSeqNo = 0) :
    a.mNextExpectedSeqNo.toNat ≤ res.1.mNextExpectedSeqNo.toNat ∨
      ∃ last ∈ removed.getLast?, last.seqNo.toNat = 2 ^ 32 - 1 := by
  by_cases hvalid : a.mNextExpectedSeqNoValid
  · by_cases hstatus : res.2.2.Advanced
    · obtain ⟨last, hlast, hnext, hle⟩ := h.advanced hstatus
      refine (em (last.seqNo.toNat = 2 ^ 32 - 1)).symm.imp (fun hwrap => ?_) fun hwrap =>
        ⟨last, hlast, hwrap⟩
      have hle := hle hvalid
      rw [hnext]
      bv_omega
    · rw [(h.waiting hstatus).2 hvalid]
      exact .inl (Nat.le_refl _)
  · rw [hfresh hvalid]
    exact .inl (Nat.zero_le _)

/-! ### The loop -/

theorem increasing_assembleMore (h : Increasing queue) :
    Increasing (a.assembleMore queue).2.1 := by
  obtain ⟨removed, hcall⟩ := assembles_assembleMore (a := a) h
  rw [hcall.split] at h
  exact (List.pairwise_append.mp h).2.1

/-- The loop ends, and the number is known where `packetLost` checks that it is. -/
theorem onPacketReceived_ends {expired : Bool} {fuel : Nat} (h : Increasing queue)
    (hfuel : 2 * queue.length + (if a.mFirstFailure then 1 else 0) < fuel) :
    Checked.onPacketReceived expired fuel a queue = some (a.onPacketReceived queue expired) := by
  induction fuel generalizing a queue with
  | zero => exact absurd hfuel (Nat.not_lt_zero _)
  | succ fuel ih =>
    obtain ⟨removed, hcall⟩ := assembles_assembleMore (a := a) h
    have hleft := increasing_assembleMore (a := a) h
    have hturn {res} (hres : a.assembleMore queue = res) :
        Checked.assembleMore a queue = some res := by
      rw [Checked.assembleMore_eq, hres]
    rw [onPacketReceived]
    split
    next a' queue' heq =>
      have hless := (assembleMore_decreases heq).1 rfl
      rw [heq] at hcall hleft
      rw [Checked.onPacketReceived, hturn heq, Option.bind_eq_bind, Option.bind_some]
      have hvalid : a'.mNextExpectedSeqNoValid := by
        refine hcall.valid.resolve_right ?_
        rintro ⟨-, hnothing⟩
        cases hnothing
      dsimp only
      by_cases hset : a'.mFirstFailure
      · rw [if_pos hset, dif_pos hset]
        split
        · rw [Checked.packetLost, if_pos hvalid, Option.bind_eq_bind, Option.bind_some]
          have hshorter := hless hset
          exact ih hleft (by simpa [packetLost] using by omega)
        · rfl
      · rw [if_neg hset, dif_neg hset]
    next a' queue' heq =>
      rw [Checked.onPacketReceived, hturn heq]
      rfl
    next a' queue' heq =>
      have hless := (assembleMore_decreases heq).2 (.inr rfl)
      rw [heq] at hleft
      rw [Checked.onPacketReceived, hturn heq]
      exact ih hleft (by simpa using by omega)
    next a' queue' heq =>
      have hless := (assembleMore_decreases heq).2 (.inl rfl)
      rw [heq] at hleft
      rw [Checked.onPacketReceived, hturn heq]
      exact ih hleft (by simpa using by omega)

/-! ### Histories -/

inductive Call
  | assembleMore
  | packetLost
  | queuePacket (buffer : ABuffer)
  deriving DecidableEq

def call (s : AAVCAssembler × List ABuffer) : Call → Option (AAVCAssembler × List ABuffer)
  | .assembleMore => (Checked.assembleMore s.1 s.2).map fun res => (res.1, res.2.1)
  | .packetLost => (Checked.packetLost s.1).map fun a => (a, s.2)
  | .queuePacket buffer => some (s.1, (queuePacket s.2 buffer).1)

/-- A fresh assembler with packets waiting for it. -/
def calls (queue : List ABuffer) : Machine (AAVCAssembler × List ABuffer) Call where
  init := ({}, queue)
  step := call

/-- The queue is in order, and no number has been counted up before the first packet came. -/
structure Ordered (s : AAVCAssembler × List ABuffer) : Prop where
  queue : Increasing s.2
  fresh : ¬s.1.mNextExpectedSeqNoValid → s.1.mNextExpectedSeqNo = 0

theorem mem_queuePacket {b : ABuffer} (h : b ∈ (queuePacket queue buffer).1) :
    b = buffer ∨ b ∈ queue := by
  induction queue with
  | nil => exact .inl (List.mem_singleton.mp h)
  | cons c queue ih =>
    rw [queuePacket] at h
    split at h
    · rcases List.mem_cons.mp h with rfl | hrest
      · exact .inr List.mem_cons_self
      · exact (ih hrest).imp_right (List.mem_cons_of_mem c)
    · split at h
      · exact .inr h
      · exact List.mem_cons.mp h

theorem increasing_queuePacket (h : Increasing queue) (buffer : ABuffer) :
    Increasing (queuePacket queue buffer).1 := by
  induction queue with
  | nil => exact List.pairwise_singleton _ _
  | cons b queue ih =>
    obtain ⟨hbelow, hrest⟩ := List.pairwise_cons.mp h
    rw [queuePacket]
    split
    next hlt =>
      refine List.pairwise_cons.mpr ⟨fun c hc => ?_, ih hrest⟩
      rcases mem_queuePacket hc with rfl | hmem
      · exact hlt
      · exact hbelow c hmem
    next hge =>
    split
    · exact h
    next hne =>
      have hlt : buffer.seqNo.toNat < b.seqNo.toNat :=
        Nat.lt_of_le_of_ne (Nat.le_of_not_lt hge) fun heq => hne (BitVec.eq_of_toNat_eq heq.symm)
      refine List.pairwise_cons.mpr ⟨fun c hc => ?_, h⟩
      rcases List.mem_cons.mp hc with rfl | hmem
      · exact hlt
      · exact Nat.lt_trans hlt (hbelow c hmem)

theorem ordered_call {s s' : AAVCAssembler × List ABuffer} {c : Call} (h : Ordered s)
    (hcall : call s c = some s') : Ordered s' := by
  obtain ⟨a, queue⟩ := s
  cases c with
  | assembleMore =>
    rw [call, Checked.assembleMore_eq, Option.map_some] at hcall
    obtain rfl := Option.some.inj hcall
    refine ⟨increasing_assembleMore h.queue, fun hvalid => ?_⟩
    obtain ⟨removed, hassembles⟩ := assembles_assembleMore (a := a) h.queue
    obtain ⟨hfresh, heq⟩ := hassembles.valid.resolve_left hvalid
    rw [heq]
    exact h.fresh hfresh
  | packetLost =>
    obtain ⟨a', hlost, rfl⟩ := Option.map_eq_some_iff.mp hcall
    refine ⟨h.queue, fun hvalid => ?_⟩
    rw [Checked.packetLost] at hlost
    split at hlost
    next hset =>
      obtain rfl := Option.some.inj hlost
      exact absurd hset hvalid
    · cases hlost
  | queuePacket buffer =>
    obtain rfl := Option.some.inj hcall
    exact ⟨increasing_queuePacket h.queue buffer, h.fresh⟩

theorem ordered_run (h : Increasing queue) {s : AAVCAssembler × List ABuffer}
    (hrun : (calls queue).Run (fun _ _ => True) s) : Ordered s :=
  Machine.Run.invariant (I := Ordered) ⟨h, fun _ => rfl⟩ (fun _ _ _ hs _ => ordered_call hs) hrun

/-- However the packets look and whatever has happened before, a call reads inside the packets and
takes the front off the queue: up to the packet before the one it expects next, at least one, when
it assembles or throws away something, and packets from before the expected one otherwise. The
number it expects goes down only where it wraps. The loop over the calls ends. -/
theorem assembleMore_robust {s : AAVCAssembler × List ABuffer} (h : Increasing queue)
    (hrun : (calls queue).Run (fun _ _ => True) s) :
    ∃ res removed, Checked.assembleMore s.1 s.2 = some res ∧ s.2 = removed ++ res.2.1 ∧
      (res.2.2.Advanced →
        ∃ last ∈ removed.getLast?, res.1.mNextExpectedSeqNo = last.seqNo + 1) ∧
      (¬res.2.2.Advanced →
        ∀ b ∈ removed, b.seqNo.toNat < s.1.mNextExpectedSeqNo.toNat) ∧
      (s.1.mNextExpectedSeqNo.toNat ≤ res.1.mNextExpectedSeqNo.toNat ∨
        ∃ last ∈ removed.getLast?, last.seqNo.toNat = 2 ^ 32 - 1) ∧
      (∀ a', Checked.packetLost s.1 = some a' →
        s.1.mNextExpectedSeqNo.toNat ≤ a'.mNextExpectedSeqNo.toNat ∨
          s.1.mNextExpectedSeqNo.toNat = 2 ^ 32 - 1) ∧
      ∀ expired, ∃ fuel, Checked.onPacketReceived expired fuel s.1 s.2 =
        some (s.1.onPacketReceived s.2 expired) := by
  have hordered := ordered_run h hrun
  obtain ⟨removed, hassembles⟩ := assembles_assembleMore (a := s.1) hordered.queue
  refine ⟨_, removed, Checked.assembleMore_eq s.1 s.2, hassembles.split, fun hstatus => ?_,
    fun hstatus b hb => ((hassembles.waiting hstatus).1 b hb).2, hassembles.next_le hordered.fresh,
    fun a' hlost => ?_, fun expired => ⟨_, onPacketReceived_ends hordered.queue (Nat.lt_succ_self _)⟩⟩
  · obtain ⟨last, hlast, hnext, -⟩ := hassembles.advanced hstatus
    exact ⟨last, hlast, hnext⟩
  · rw [Checked.packetLost] at hlost
    split at hlost
    · obtain rfl := Option.some.inj hlost
      refine (em (s.1.mNextExpectedSeqNo.toNat = 2 ^ 32 - 1)).symm.imp_left fun hwrap => ?_
      rw [packetLost]
      bv_omega
    · cases hlost

/-- A fragment without its start bit and an empty packet behind a lost one. -/
def oddPackets : List ABuffer :=
  [⟨5, 0, [0x7c, 0x41]⟩, ⟨7, 0, []⟩]

theorem assembleMore_robust_oddPackets :
    ∃ s, (calls oddPackets).Run (fun _ _ => True) s ∧
      ∃ res removed, Checked.assembleMore s.1 s.2 = some res ∧ s.2 = removed ++ res.2.1 := by
  have hrun := Machine.Run.of_exec (calls oddPackets) (fun _ _ => True)
    [.assembleMore, .assembleMore, .packetLost, .assembleMore] (by decide)
  obtain ⟨res, removed, hres, hsplit, -⟩ := assembleMore_robust (by decide) hrun
  exact ⟨_, hrun, res, removed, hres, hsplit⟩

/-- The expected number goes from the last one to zero. -/
theorem next_wraps :
    ∃ queue, Increasing queue ∧ ∃ s, (calls queue).Run (fun _ _ => True) s ∧
      (s.1.assembleMore s.2).2.2 = .OK ∧
      (s.1.assembleMore s.2).1.mNextExpectedSeqNo.toNat < s.1.mNextExpectedSeqNo.toNat := by
  have hrun := Machine.Run.of_exec
    (calls [⟨0xfffffffe, 0, [0x41]⟩, ⟨0xffffffff, 0, [0x41]⟩]) (fun _ _ => True)
    [.assembleMore] (by decide)
  exact ⟨_, by decide, _, hrun, by decide, by decide⟩

end AAVCAssembler

end MediaFramework.Rtsp
