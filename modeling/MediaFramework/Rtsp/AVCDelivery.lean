import MediaFramework.Rtsp.AVCReassembly
import Mathlib.Data.List.SplitBy

/-!
# Packets in any order

Whatever order the packets of a list of NAL units come in, after each of them the assembler has
taken the units up to the first one with a missing packet.
-/

namespace MediaFramework.Rtsp

open ARTPWriter AAVCAssembler

/-! ### Access units -/

/-- Whether two NAL units with their RTP times go into the same access unit. -/
def sameTime (x y : BitVec 32 × List (BitVec 8)) : Bool := x.1 == y.1

/-- The access unit for NAL units of one time. -/
def accessUnitOf (group : List (BitVec 32 × List (BitVec 8))) :
    BitVec 32 × List (BitVec 8) × Bool :=
  ((group.headD (0, [])).1, group.flatMap fun (_, nal) => [0, 0, 0, 1] ++ nal, false)

/-- A NAL unit as it stands in `mNALUnits`. -/
def ABuffer.unit (b : ABuffer) : BitVec 32 × List (BitVec 8) := (b.rtpTime, b.data)

/-- An access unit with its time and whether it is damaged. -/
def AccessUnit.view (u : AccessUnit) : BitVec 32 × List (BitVec 8) × Bool :=
  (u.buffer.rtpTime, u.buffer.data, u.damaged)

/-- The assembler has taken the packets before number `n`, with the given NAL units in them.
Those of `current` wait for a change of time. -/
structure Assembled (a : AAVCAssembler) (n : Nat)
    (taken current : List (BitVec 32 × List (BitVec 8))) : Prop where
  valid : a.mNextExpectedSeqNoValid
  next : a.mNextExpectedSeqNo = BitVec.ofNat 32 n
  undamaged : a.mAccessUnitDamaged = false
  units : a.mNALUnits.map ABuffer.unit = current
  posted : a.posted.map AccessUnit.view = (taken.splitBy sameTime).map accessUnitOf
  time : ∀ u ∈ current, u.1 = a.mAccessUnitRTPTime
  waiting : current = [] → taken = []
  boundary : ∀ u ∈ taken.getLast?, u.1 ≠ a.mAccessUnitRTPTime

variable {a : AAVCAssembler} {n : Nat} {taken current : List (BitVec 32 × List (BitVec 8))}
  {rtpTime : BitVec 32} {nal : List (BitVec 8)} {arrived : ABuffer → Bool}

theorem Assembled.with_firstFailure (h : Assembled a n taken current) (firstFailure : Bool) :
    Assembled { a with mFirstFailure := firstFailure } n taken current :=
  ⟨h.valid, h.next, h.undamaged, h.units, h.posted, h.time, h.waiting, h.boundary⟩

theorem isChain_sameTime {time : BitVec 32} {group : List (BitVec 32 × List (BitVec 8))}
    (h : ∀ u ∈ group, u.1 = time) : group.IsChain fun x y => sameTime x y := by
  induction group with
  | nil => exact .nil
  | cons u group ih =>
    cases group with
    | nil => exact .singleton u
    | cons v group =>
      refine .cons_cons ?_ (ih fun w hw => h w (List.mem_cons_of_mem _ hw))
      rw [sameTime, beq_iff_eq, h u List.mem_cons_self,
        h v (List.mem_cons_of_mem _ List.mem_cons_self)]

/-- The NAL units that wait are the last group. -/
theorem Assembled.splitBy (h : Assembled a n taken current) (hne : current ≠ []) :
    (taken ++ current).splitBy sameTime = taken.splitBy sameTime ++ [current] := by
  rw [List.splitBy_append, List.splitBy_of_isChain hne (isChain_sameTime h.time)]
  intro x hx y hy
  have hy := h.time y (List.mem_of_mem_head? hy)
  rw [sameTime, beq_eq_false_iff_ne, hy]
  exact h.boundary x hx

theorem view_accessUnit (first : ABuffer) (units : List ABuffer) :
    AccessUnit.view ⟨accessUnit first (first :: units), false⟩ =
      accessUnitOf ((first :: units).map ABuffer.unit) := by
  rw [accessUnitOf, List.flatMap_map]
  rfl

/-- A further NAL unit joins those that wait, or closes their access unit. -/
theorem Assembled.withUnit (h : Assembled a n taken current) (seqNo rtpTime : BitVec 32)
    (nal : List (BitVec 8)) (next : Nat) :
    ∃ taken' current', taken' ++ current' = taken ++ current ++ [(rtpTime, nal)] ∧
      Assembled (withUnit a seqNo rtpTime nal next) next taken' current' := by
  by_cases hchange : a.mNALUnits ≠ [] ∧ rtpTime ≠ a.mAccessUnitRTPTime
  · obtain ⟨first, units, hunits⟩ := List.exists_cons_of_ne_nil hchange.1
    have hne : current ≠ [] := by
      rw [← h.units, hunits]
      exact List.cons_ne_nil _ _
    refine ⟨taken ++ current, [(rtpTime, nal)], rfl, ?_⟩
    rw [Rtsp.withUnit, addSingleNALUnit, if_pos hchange, submitAccessUnit, hunits]
    constructor
    · exact h.valid
    · rfl
    · rfl
    · rfl
    · rw [h.splitBy hne, List.map_append, List.map_append, h.posted]
      congr 1
      have hcurrent := h.units
      rw [hunits, List.map_cons] at hcurrent
      rw [← hcurrent, h.undamaged, List.map_singleton, view_accessUnit, List.map_singleton,
        List.map_cons]
    · intro u hu
      rw [List.mem_singleton.mp hu]
    · intro hnil
      cases hnil
    · intro u hu
      rw [List.getLast?_append_of_ne_nil _ hne] at hu
      rw [h.time u (List.mem_of_mem_getLast? hu)]
      exact hchange.2.symm
  · refine ⟨taken, current ++ [(rtpTime, nal)], (List.append_assoc _ _ _).symm, ?_⟩
    rw [Rtsp.withUnit, addSingleNALUnit, if_neg hchange]
    have hsame : current ≠ [] → rtpTime = a.mAccessUnitRTPTime := by
      intro hne
      by_contra htime
      refine hchange ⟨?_, htime⟩
      intro hnil
      rw [← h.units, hnil] at hne
      exact hne rfl
    constructor
    · exact h.valid
    · rfl
    · exact h.undamaged
    · rw [List.map_append, h.units]
      rfl
    · exact h.posted
    · intro u hu
      obtain hu | hu := List.mem_append.mp hu
      · rw [h.time u hu]
        exact (hsame (List.ne_nil_of_mem hu)).symm
      · rw [List.mem_singleton.mp hu]
    · intro hnil
      simp at hnil
    · intro u hu
      by_cases hcurrent : current = []
      · rw [h.waiting hcurrent] at hu
        cases hu
      · show u.1 ≠ rtpTime
        rw [hsame hcurrent]
        exact h.boundary u hu

/-! ### The loop -/

/-- The first of the NAL units has a packet that is not there yet. -/
def Waiting (arrived : ABuffer → Bool) (n : Nat) : List (BitVec 32 × List (BitVec 8)) → Prop
  | [] => True
  | (rtpTime, nal) :: _ => ∃ b ∈ number n ((payloads nal).map (rtpTime, ·)), arrived b = false

theorem allPayloads_cons (nals : List (BitVec 32 × List (BitVec 8))) :
    allPayloads ((rtpTime, nal) :: nals) =
      (payloads nal).map (rtpTime, ·) ++ allPayloads nals := List.flatMap_cons

theorem allPayloads_append (front rest : List (BitVec 32 × List (BitVec 8))) :
    allPayloads (front ++ rest) = allPayloads front ++ allPayloads rest := List.flatMap_append

/-- The loop while the timer does not run out. -/
theorem onPacketReceived_eq (a : AAVCAssembler) (queue : List ABuffer) :
    a.onPacketReceived queue false =
      match a.assembleMore queue with
      | (a, queue, .WRONG_SEQUENCE_NUMBER) => ({ a with mFirstFailure := true }, queue)
      | (a, queue, .NOT_ENOUGH_DATA) => ({ a with mFirstFailure := false }, queue)
      | (a, queue, .MALFORMED_PACKET) => { a with mFirstFailure := false }.onPacketReceived queue false
      | (a, queue, .OK) => { a with mFirstFailure := false }.onPacketReceived queue false := by
  rw [onPacketReceived]
  split
  · next a' queue' heq =>
    rw [heq]
    dsimp only
    split
    · next hset =>
      obtain ⟨⟩ := a'
      dsimp only at hset
      rw [hset]
      rfl
    · rfl
  · next heq => rw [heq]
  · next heq => rw [heq]
  · next heq => rw [heq]

/-- Nothing comes off the queue while a packet of the first NAL unit is missing. -/
theorem onPacketReceived_waiting {queue : List ABuffer} {status : AssemblyStatus}
    (h : a.assembleMore queue = (a, queue, status))
    (hstatus : status ∈ [AssemblyStatus.NOT_ENOUGH_DATA, .WRONG_SEQUENCE_NUMBER]) :
    ∃ firstFailure, a.onPacketReceived queue false =
      ({ a with mFirstFailure := firstFailure }, queue) := by
  rw [List.mem_cons, List.mem_singleton] at hstatus
  rw [onPacketReceived_eq, h]
  obtain rfl | rfl := hstatus
  · exact ⟨false, rfl⟩
  · exact ⟨true, rfl⟩

/-- The loop takes the NAL units up to the first one with a missing packet. -/
theorem onPacketReceived_spec (arrived : ABuffer → Bool)
    (nals : List (BitVec 32 × List (BitVec 8))) (h : Assembled a n taken current) (hsend : ∀ u ∈ nals, Sendable u.2)
    (hrange : n + (allPayloads nals).length ≤ 2^32) :
    ∃ front rest taken' current' a', nals = front ++ rest ∧
      taken' ++ current' = taken ++ current ++ front ∧
      a.onPacketReceived ((number n (allPayloads nals)).filter arrived) false =
        (a', (number (n + (allPayloads front).length) (allPayloads rest)).filter arrived) ∧
      Assembled a' (n + (allPayloads front).length) taken' current' ∧
      (∀ b ∈ number n (allPayloads front), arrived b) ∧
      Waiting arrived (n + (allPayloads front).length) rest := by
  induction nals generalizing a n taken current with
  | nil =>
    have hempty : a.assembleMore [] = (a, [], .NOT_ENOUGH_DATA) := by
      apply assembleMore_eq _ (by decide)
      rw [addNALUnit, if_pos h.valid]
      rfl
    obtain ⟨firstFailure, hloop⟩ := onPacketReceived_waiting hempty List.mem_cons_self
    exact ⟨[], [], taken, current, _, rfl, (List.append_nil _).symm, hloop,
      h.with_firstFailure firstFailure, fun b hb => absurd hb List.not_mem_nil, trivial⟩
  | cons u nals ih =>
    obtain ⟨rtpTime, nal⟩ := u
    have hnal : Sendable nal := hsend _ List.mem_cons_self
    rw [allPayloads_cons] at hrange ⊢
    have hlen := hrange
    rw [List.length_append, List.length_map] at hlen
    obtain ⟨hall, hgap⟩ := assembleMore_spec (a := a) (n := n) arrived rtpTime (allPayloads nals)
      hnal h.valid h.next (by omega)
    by_cases harrived : ∀ b ∈ number n ((payloads nal).map (rtpTime, ·)), arrived b
    · obtain ⟨taken₁, current₁, hsplit₁, hassembled₁⟩ :=
        h.withUnit (BitVec.ofNat 32 n) rtpTime nal (n + (payloads nal).length)
      obtain ⟨front, rest, taken', current', a', rfl, hsplit, hloop, hassembled, hfront, hrest⟩ :=
        ih (hassembled₁.with_firstFailure false) (fun u hu => hsend u (List.mem_cons_of_mem _ hu))
          (by omega)
      have hcount : n + (allPayloads ((rtpTime, nal) :: front)).length =
          n + (payloads nal).length + (allPayloads front).length := by
        rw [allPayloads_cons, List.length_append, List.length_map, Nat.add_assoc]
      refine ⟨(rtpTime, nal) :: front, rest, taken', current', a', rfl, ?_, ?_, ?_, ?_, ?_⟩
      · rw [hsplit, hsplit₁, List.append_assoc _ [_], List.singleton_append]
      · rw [onPacketReceived_eq, hall harrived, hcount]
        exact hloop
      · rw [hcount]
        exact hassembled
      · intro b hb
        rw [allPayloads_cons, number_append, List.length_map] at hb
        obtain hb | hb := List.mem_append.mp hb
        · exact harrived b hb
        · exact hfront b hb
      · rw [hcount]
        exact hrest
    · simp only [not_forall] at harrived
      obtain ⟨b, hb, hmissing⟩ := harrived
      have hgap' : Waiting arrived n ((rtpTime, nal) :: nals) :=
        ⟨b, hb, Bool.eq_false_iff.mpr hmissing⟩
      obtain ⟨status, hstatus, hmore⟩ := hgap hgap'
      obtain ⟨firstFailure, hloop⟩ := onPacketReceived_waiting hmore hstatus
      exact ⟨[], (rtpTime, nal) :: nals, taken, current, _, rfl, (List.append_nil _).symm, hloop,
        h.with_firstFailure firstFailure, fun b hb => absurd hb List.not_mem_nil, hgap'⟩

/-! ### Arrivals -/

/-- A packet goes to its place in the queue. -/
theorem queuePacket_filter {l : List ABuffer} {b : ABuffer}
    (hsorted : l.Pairwise fun b b' => b.seqNo.toNat < b'.seqNo.toNat) (h : b ∈ l)
    (hnew : arrived b = false) :
    queuePacket (l.filter arrived) b = (l.filter fun b' => arrived b' || b' = b, true) := by
  induction l with
  | nil => cases h
  | cons c l ih =>
    rw [List.pairwise_cons] at hsorted
    obtain rfl | h := List.mem_cons.mp h
    · have hrest : (l.filter fun b' => arrived b' || b' = b) = l.filter arrived := by
        apply List.filter_congr
        intro b' hb'
        have hlt := hsorted.1 b' hb'
        have hne : b' ≠ b := by
          rintro rfl
          exact Nat.lt_irrefl _ hlt
        rw [decide_eq_false hne, Bool.or_false]
      rw [List.filter_cons_of_neg (by rw [hnew]; decide), List.filter_cons_of_pos (by simp), hrest]
      cases hl : l.filter arrived with
      | nil => rfl
      | cons d l' =>
        have hd : d ∈ l.filter arrived := by
          rw [hl]
          exact List.mem_cons_self
        have hlt := hsorted.1 d (List.mem_of_mem_filter hd)
        rw [queuePacket, if_neg (by omega), if_neg]
        rintro heq
        rw [heq] at hlt
        exact Nat.lt_irrefl _ hlt
    · have hlt := hsorted.1 b h
      have hne : c ≠ b := by
        rintro rfl
        exact Nat.lt_irrefl _ hlt
      by_cases hc : arrived c
      · rw [List.filter_cons_of_pos hc, List.filter_cons_of_pos (by rw [hc]; rfl), queuePacket,
          if_pos hlt, ih hsorted.2 h]
      · rw [List.filter_cons_of_neg hc, List.filter_cons_of_neg (by simp [hc, hne]), ih hsorted.2 h]

theorem pairwise_number {items : List (BitVec 32 × List (BitVec 8))}
    (hrange : n + items.length ≤ 2^32) :
    (number n items).Pairwise fun b b' => b.seqNo.toNat < b'.seqNo.toNat := by
  induction items generalizing n with
  | nil => exact .nil
  | cons item items ih =>
    obtain ⟨rtpTime, data⟩ := item
    rw [List.length_cons] at hrange
    refine .cons ?_ (ih (by omega))
    intro b hb
    have hmem := mem_number hb (by omega)
    show (BitVec.ofNat 32 n).toNat < _
    rw [BitVec.toNat_ofNat]
    omega

/-- Packets come one by one, and the timer does not run out. -/
def deliver (a : AAVCAssembler) (queue : List ABuffer) :
    List ABuffer → AAVCAssembler × List ABuffer
  | [] => (a, queue)
  | buffer :: buffers =>
    let (a, queue) := a.processRTPPacket queue buffer false
    deliver a queue buffers

def arrivedOf (seen : List ABuffer) (b : ABuffer) : Bool := b ∈ seen

/-- After the packets `seen` the NAL units up to the first gap are taken and the packets behind it
are queued. -/
def Delivered (nals : List (BitVec 32 × List (BitVec 8))) (n : Nat) (seen : List ABuffer)
    (res : AAVCAssembler × List ABuffer) : Prop :=
  ∃ front rest taken current, nals = front ++ rest ∧ taken ++ current = front ∧
    res.2 = (number (n + (allPayloads front).length) (allPayloads rest)).filter (arrivedOf seen) ∧
    Assembled res.1 (n + (allPayloads front).length) taken current ∧
    (∀ b ∈ number n (allPayloads front), arrivedOf seen b) ∧
    Waiting (arrivedOf seen) (n + (allPayloads front).length) rest

variable {nals : List (BitVec 32 × List (BitVec 8))} {seen : List ABuffer}
  {res : AAVCAssembler × List ABuffer}

theorem arrivedOf_cons (b : ABuffer) (seen : List ABuffer) :
    arrivedOf (b :: seen) = fun b' => arrivedOf seen b' || b' = b := by
  funext b'
  rw [arrivedOf, arrivedOf, ← Bool.decide_or]
  exact decide_eq_decide.mpr (by rw [List.mem_cons, or_comm])

/-- One more packet. -/
theorem Delivered.step (h : Delivered nals n seen res) (hsend : ∀ u ∈ nals, Sendable u.2)
    (hrange : n + (allPayloads nals).length ≤ 2^32) {b : ABuffer}
    (hb : b ∈ number n (allPayloads nals)) (hnew : b ∉ seen) :
    Delivered nals n (b :: seen) (res.1.processRTPPacket res.2 b false) := by
  obtain ⟨front, rest, taken, current, rfl, hsplit, hqueue, hassembled, hfront, hrest⟩ := h
  have hmissing : arrivedOf seen b = false := decide_eq_false hnew
  rw [allPayloads_append, List.length_append] at hrange
  have hbehind : b ∈ number (n + (allPayloads front).length) (allPayloads rest) := by
    rw [allPayloads_append, number_append] at hb
    obtain hb | hb := List.mem_append.mp hb
    · rw [hfront b hb] at hmissing
      cases hmissing
    · exact hb
  have hput := queuePacket_filter (pairwise_number (by omega)) hbehind hmissing
  rw [← hqueue, ← arrivedOf_cons] at hput
  obtain ⟨front', rest', taken', current', a', rfl, hsplit', hloop, hassembled', hfront', hrest'⟩ :=
    onPacketReceived_spec (arrivedOf (b :: seen)) rest hassembled
      (fun u hu => hsend u (List.mem_append_right _ hu)) (by omega)
  rw [processRTPPacket, hput]
  dsimp only
  rw [hloop]
  have hcount : n + (allPayloads (front ++ front')).length =
      n + (allPayloads front).length + (allPayloads front').length := by
    rw [allPayloads_append, List.length_append, Nat.add_assoc]
  refine ⟨front ++ front', rest', taken', current', (List.append_assoc _ _ _).symm, ?_, ?_, ?_, ?_,
    ?_⟩
  · rw [hsplit', hsplit]
  · rw [hcount]
  · rw [hcount]
    exact hassembled'
  · intro b' hb'
    rw [allPayloads_append, number_append] at hb'
    obtain hb' | hb' := List.mem_append.mp hb'
    · exact decide_eq_true (List.mem_cons_of_mem _ (of_decide_eq_true (hfront b' hb')))
    · exact hfront' b' hb'
  · rw [hcount]
    exact hrest'

theorem Delivered.run (hsend : ∀ u ∈ nals, Sendable u.2)
    (hrange : n + (allPayloads nals).length ≤ 2^32) (buffers : List ABuffer)
    (h : Delivered nals n seen res) (hmem : ∀ b ∈ buffers, b ∈ number n (allPayloads nals))
    (hnodup : (buffers ++ seen).Nodup) :
    Delivered nals n (buffers.reverse ++ seen) (deliver res.1 res.2 buffers) := by
  induction buffers generalizing seen res with
  | nil => exact h
  | cons b buffers ih =>
    rw [List.cons_append, List.nodup_cons] at hnodup
    rw [List.reverse_cons, List.append_assoc]
    have hstep := h.step hsend hrange (hmem b List.mem_cons_self)
      fun hseen => hnodup.1 (List.mem_append_right _ hseen)
    apply ih hstep fun b' hb' => hmem b' (List.mem_cons_of_mem _ hb')
    exact List.perm_middle.nodup_iff.mpr (List.nodup_cons.mpr hnodup)

/-- The first packet tells the assembler which number to expect. -/
theorem Delivered.start {b : ABuffer} {buffers : List ABuffer}
    (hnumber : number n (allPayloads nals) = b :: buffers) (hsend : ∀ u ∈ nals, Sendable u.2)
    (hrange : n + (allPayloads nals).length ≤ 2^32) :
    Delivered nals n [b] (({} : AAVCAssembler).processRTPPacket [] b false) := by
  have hb : b.seqNo = BitVec.ofNat 32 n := by
    cases hitems : allPayloads nals with
    | nil =>
      rw [hitems] at hnumber
      cases hnumber
    | cons item items =>
      rw [hitems, number] at hnumber
      rw [← (List.cons.inj hnumber).1]
  have hsorted := pairwise_number hrange
  have hqueue : (number n (allPayloads nals)).filter (arrivedOf [b]) = [b] := by
    rw [hnumber, List.pairwise_cons] at hsorted
    have harrived : arrivedOf [b] b := decide_eq_true List.mem_cons_self
    rw [hnumber, List.filter_cons_of_pos harrived, List.cons_inj_right,
      List.filter_eq_nil_iff]
    intro b' hb' harrived
    have hlt := hsorted.1 b' hb'
    rw [List.mem_singleton.mp (of_decide_eq_true harrived)] at hlt
    exact Nat.lt_irrefl _ hlt
  let a : AAVCAssembler :=
    { mNextExpectedSeqNoValid := true, mNextExpectedSeqNo := BitVec.ofNat 32 n }
  have hassembled : Assembled a n [] [] :=
    ⟨rfl, rfl, rfl, rfl, rfl, fun _ hu => absurd hu List.not_mem_nil, fun _ => rfl,
      fun _ hu => by cases hu⟩
  have hmore : ({} : AAVCAssembler).assembleMore [b] = a.assembleMore [b] := by
    have hadd : ({} : AAVCAssembler).addNALUnit [b] = a.addNALUnit [b] := by
      rw [addNALUnit, addNALUnit, if_neg (by decide), if_pos rfl, List.dropWhile_cons_of_neg]
      · dsimp only
        rw [if_neg (by decide), if_pos rfl, if_neg (fun hne => hne hb), hb]
      · rw [hb, decide_eq_true_eq]
        exact Nat.lt_irrefl _
    rw [assembleMore, hadd]
    rfl
  obtain ⟨front, rest, taken, current, a', rfl, hsplit, hloop, hassembled', hfront, hrest⟩ :=
    onPacketReceived_spec (arrivedOf [b]) nals hassembled hsend hrange
  rw [hqueue, onPacketReceived_eq, ← hmore, ← onPacketReceived_eq] at hloop
  have hprocess : ({} : AAVCAssembler).processRTPPacket [] b false = _ := hloop
  rw [hprocess]
  exact ⟨front, rest, taken, current, rfl, hsplit, rfl, hassembled', hfront, hrest⟩

/-- When all packets are there, all NAL units are taken. -/
theorem Delivered.complete (h : Delivered nals n seen res)
    (hall : ∀ b ∈ number n (allPayloads nals), b ∈ seen) :
    ∃ taken current, taken ++ current = nals ∧ res.2 = [] ∧
      Assembled res.1 (n + (allPayloads nals).length) taken current := by
  obtain ⟨front, rest, taken, current, rfl, hsplit, hqueue, hassembled, _, hrest⟩ := h
  cases rest with
  | nil =>
    rw [List.append_nil]
    exact ⟨taken, current, hsplit, hqueue, hassembled⟩
  | cons u rest =>
    obtain ⟨rtpTime, nal⟩ := u
    obtain ⟨b, hb, hmissing⟩ := hrest
    refine absurd (hall b ?_) (of_decide_eq_false hmissing)
    rw [allPayloads_append, allPayloads_cons, number_append, number_append]
    exact List.mem_append_right _ (List.mem_append_left _ hb)

end MediaFramework.Rtsp
