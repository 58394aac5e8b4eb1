import MediaFramework.Rtsp.AMRPackets
import Mathlib.Data.List.Forall2

/-!
# AMR frames arrive as they were sent

A media buffer that is sent is a row of frames. The headers of the frames are gathered in front of
the packet and go back to their frames at the receiver, with another bit 7.
-/

namespace MediaFramework.Rtsp

/-- A header and as many bytes behind it as its type asks for. -/
structure Frame (isWide : Bool) where
  header : BitVec 8
  payload : List (BitVec 8)
  sized : AMRWriter.getFrameSize isWide (frameType header) = some (payload.length + 1)

namespace Frame

variable {isWide : Bool} {frames : List (Frame isWide)}

def all (f : Frame isWide) : List (BitVec 8) := f.header :: f.payload

def join (frames : List (Frame isWide)) : List (BitVec 8) := frames.flatMap all

@[simp]
theorem join_nil : join ([] : List (Frame isWide)) = [] := rfl

@[simp]
theorem join_cons (f : Frame isWide) (frames : List (Frame isWide)) :
    join (f :: frames) = f.header :: (f.payload ++ join frames) := rfl

/-- The same frame, but for bit 7 of the header. -/
def Alike (f f' : Frame isWide) : Prop :=
  f'.header &&& 0x7f = f.header &&& 0x7f ∧ f'.payload = f.payload

theorem length_join {frames' : List (Frame isWide)} (h : frames.Forall₂ Alike frames') :
    (join frames').length = (join frames).length := by
  induction h with
  | nil => rfl
  | cons hf _ ih =>
    rw [join_cons, join_cons, List.length_cons, List.length_cons, List.length_append,
      List.length_append, hf.2, ih]

theorem payloads_alike {frames' : List (Frame isWide)} (h : frames.Forall₂ Alike frames') :
    frames'.flatMap payload = frames.flatMap payload := by
  induction h with
  | nil => rfl
  | cons hf _ ih => rw [List.flatMap_cons, List.flatMap_cons, hf.2, ih]

/-! ### The sender -/

theorem of_tableOfContents {mediaData : List (BitVec 8)} {srcOffset : Nat}
    {tocs : List (BitVec 8)}
    (h : AMRWriter.tableOfContents isWide mediaData srcOffset = some (tocs, mediaData.length)) :
    srcOffset ≤ mediaData.length ∧
      ∃ frames : List (Frame isWide), mediaData.drop srcOffset = join frames ∧
        tocs = frames.map header := by
  induction srcOffset using AMRWriter.tableOfContents.induct isWide mediaData generalizing tocs with
  | case1 srcOffset hlt hnone =>
    rw [AMRWriter.tableOfContents_of_lt hlt, hnone] at h
    cases h
  | case2 srcOffset hlt size hsize ih =>
    rw [AMRWriter.tableOfContents_of_lt hlt, hsize, Option.bind_some] at h
    obtain ⟨⟨tocs', _⟩, hrest, heq⟩ := Option.map_eq_some_iff.mp h
    obtain ⟨rfl, rfl⟩ := Prod.mk.inj heq
    obtain ⟨hle, frames, hdrop, rfl⟩ := ih hrest
    have hpos := AMRWriter.getFrameSize_pos hsize
    -- the frame is what is between its header and the next one
    have hlength : ((mediaData.drop (srcOffset + 1)).take (size - 1)).length + 1 = size := by
      rw [List.length_take, List.length_drop]
      omega
    have hsplit : mediaData.drop srcOffset = mediaData[srcOffset] ::
        ((mediaData.drop (srcOffset + 1)).take (size - 1) ++ mediaData.drop (srcOffset + size)) := by
      have hrest : mediaData.drop (srcOffset + size) =
          (mediaData.drop (srcOffset + 1)).drop (size - 1) := by
        rw [List.drop_drop, show srcOffset + 1 + (size - 1) = srcOffset + size by omega]
      rw [hrest, List.take_append_drop, List.drop_eq_getElem_cons hlt]
    refine ⟨Nat.le_of_lt hlt, ⟨_, _, hsize.trans (congrArg some hlength.symm)⟩ :: frames, ?_, rfl⟩
    rw [join_cons, ← hdrop]
    exact hsplit
  | case3 srcOffset hge =>
    rw [AMRWriter.tableOfContents, dif_neg hge] at h
    obtain ⟨rfl, rfl⟩ := Prod.mk.inj (Option.some.inj h)
    exact ⟨Nat.le_refl _, [], List.drop_length, rfl⟩

theorem contents_join (front : List (BitVec 8)) (frames : List (Frame isWide)) :
    AMRWriter.contents isWide (front ++ join frames) (frames.map header) front.length =
      some (frames.flatMap payload) := by
  induction frames generalizing front with
  | nil => rfl
  | cons f frames ih =>
    have hdata : front ++ join (f :: frames) = (front ++ f.all) ++ join frames := by
      rw [List.append_assoc]
      rfl
    have hpiece : Buffer.load (front ++ join (f :: frames)) (front.length + 1)
        (f.payload.length + 1 - 1) = some f.payload := by
      rw [join_cons, ← List.singleton_append, ← List.append_assoc]
      exact Buffer.load_between (by rw [List.length_append, List.length_singleton]) rfl
    have hlength : (front ++ f.all).length = front.length + (f.payload.length + 1) := by
      rw [List.length_append]
      rfl
    rw [List.map_cons, AMRWriter.contents, f.sized, Option.bind_eq_bind, Option.bind_some, hpiece,
      hdata, ← hlength, ih]
    rfl

/-- What is sent is a row of frames, and their headers are in front of their contents. -/
theorem sendAMRData_frames {w w' : AMRWriter} {mediaData packet : List (BitVec 8)}
    {timeUs : BitVec 64} (h : w.sendAMRData mediaData timeUs = some (w', packet)) :
    ∃ frames : List (Frame w.isWide), mediaData = join frames ∧
      packet = w.header (w.amrTime timeUs) (w.mNumRTPSent = 0) ++
        0xf0 :: AMRWriter.continued (frames.map header) ++ frames.flatMap payload := by
  rw [AMRWriter.sendAMRData] at h
  split at h
  · cases h
  obtain ⟨⟨tocs, srcOffset⟩, htocs, h⟩ := Option.bind_eq_some_iff.mp h
  dsimp only at h
  split at h
  · cases h
  next hend =>
  rw [ne_eq, not_not] at hend
  rw [hend] at htocs
  obtain ⟨-, frames, hdrop, rfl⟩ := of_tableOfContents htocs
  rw [List.drop_zero] at hdrop
  have hcontents := contents_join [] frames
  rw [List.nil_append, List.length_nil, ← hdrop] at hcontents
  rw [hcontents] at h
  obtain ⟨rfl, rfl⟩ := Prod.mk.inj (Option.some.inj h)
  exact ⟨frames, hdrop, rfl⟩

theorem tableOfContents_join (front : List (BitVec 8)) (frames : List (Frame isWide)) :
    AMRWriter.tableOfContents isWide (front ++ join frames) front.length =
      some (frames.map header, (front ++ join frames).length) := by
  induction frames generalizing front with
  | nil =>
    rw [AMRWriter.tableOfContents, dif_neg (by simp), join_nil, List.append_nil]
    rfl
  | cons f frames ih =>
    have hdata : front ++ join (f :: frames) = (front ++ f.all) ++ join frames := by
      rw [List.append_assoc]
      rfl
    have hlength : (front ++ f.all).length = front.length + (f.payload.length + 1) := by
      rw [List.length_append]
      rfl
    have hlt : front.length < (front ++ join (f :: frames)).length := by
      rw [List.length_append, join_cons, List.length_cons]
      omega
    have htoc : (front ++ join (f :: frames))[front.length] = f.header := by
      simp
    rw [AMRWriter.tableOfContents_of_lt hlt, htoc, f.sized, Option.bind_some, ← hlength, hdata, ih]
    rfl

/-- Any row of frames that fits is sent. -/
theorem sendAMRData_join {w : AMRWriter} {timeUs : BitVec 64} {frames : List (Frame w.isWide)}
    (h : 12 + 1 + (join frames).length ≤ kMaxPacketSize) :
    w.sendAMRData (join frames) timeUs =
      some ({ w with mSeqNo := w.mSeqNo + 1, mNumRTPSent := w.mNumRTPSent + 1 },
        w.header (w.amrTime timeUs) (w.mNumRTPSent = 0) ++
          0xf0 :: AMRWriter.continued (frames.map header) ++ frames.flatMap payload) := by
  have htable := tableOfContents_join [] frames
  have hcontents := contents_join [] frames
  rw [List.nil_append, List.length_nil] at htable hcontents
  rw [AMRWriter.sendAMRData, if_neg (Nat.not_lt.mpr h), htable, Option.bind_eq_bind,
    Option.bind_some]
  dsimp only
  rw [if_neg (not_not.mpr rfl), hcontents]
  rfl

/-- A buffer is a row of frames in one way only. -/
theorem join_injective {frames frames' : List (Frame isWide)} (h : join frames = join frames') :
    frames = frames' := by
  induction frames generalizing frames' with
  | nil =>
    cases frames' with
    | nil => rfl
    | cons f' frames' => cases h
  | cons f frames ih =>
    cases frames' with
    | nil => cases h
    | cons f' frames' =>
      obtain ⟨header, payload, sized⟩ := f
      obtain ⟨header', payload', sized'⟩ := f'
      rw [join_cons, join_cons] at h
      obtain ⟨hheader, hrest⟩ := List.cons.inj h
      obtain rfl : header = header' := hheader
      have hsize : payload.length = payload'.length := by
        rw [sized, Option.some.injEq] at sized'
        omega
      obtain ⟨hpayload, htail⟩ := List.append_inj hrest hsize
      obtain rfl : payload = payload' := hpayload
      rw [ih htail]

/-! ### The receiver -/

theorem getElem?_append_of_some {s t : List Nat} {FT bits : Nat}
    (h : s[FT]? = some bits) : (s ++ t)[FT]? = some bits := by
  rw [List.getElem?_append_left (List.getElem?_eq_some_iff.mp h).1]
  exact h

/-- The tables agree on the types that are sent. -/
theorem getFrameSize_eq {FT size : Nat} (h : AMRWriter.getFrameSize isWide FT = some size) :
    AAMRAssembler.getFrameSize isWide FT = some size ∧ FT ≤ if isWide then 8 else 7 := by
  obtain ⟨bits, hbits, rfl⟩ := Option.map_eq_some_iff.mp h
  have hlt := (List.getElem?_eq_some_iff.mp hbits).1
  cases isWide with
  | false =>
    have hlonger : AAMRAssembler.kFrameSizeNB[FT]? = some bits :=
      getElem?_append_of_some (s := AMRWriter.kFrameSizeNB) (t := [39]) hbits
    have hle : FT < 8 := hlt
    refine ⟨?_, Nat.le_of_lt_succ hle⟩
    rw [AAMRAssembler.getFrameSize, if_neg (by omega)]
    exact congrArg (Option.map bytesForBits) hlonger
  | true =>
    have hlonger : AAMRAssembler.kFrameSizeWB[FT]? = some bits :=
      getElem?_append_of_some (s := AMRWriter.kFrameSizeWB) (t := [40]) hbits
    have hle : FT < 9 := hlt
    refine ⟨?_, Nat.le_of_lt_succ hle⟩
    rw [AAMRAssembler.getFrameSize, if_neg (by omega)]
    exact congrArg (Option.map bytesForBits) hlonger

/-- Bit 7 does not count for the type and the low bits. -/
theorem frameType_eq (toc : BitVec 8) : frameType toc = ((toc &&& 0x7f) >>> 3).toNat := by
  rw [frameType]
  congr 1
  revert toc
  decide

theorem low_eq (toc : BitVec 8) : toc &&& 3 = toc &&& 0x7f &&& 3 := by
  rw [BitVec.and_assoc]
  rfl

theorem Alike.low {f f' : Frame isWide} (h : Alike f f') : f'.header &&& 3 = f.header &&& 3 := by
  rw [low_eq, h.1, ← low_eq]

theorem or_alike (toc : BitVec 8) : (toc ||| 0x80) &&& 0x7f = toc &&& 0x7f := by
  revert toc
  decide

theorem or_continues (toc : BitVec 8) : (toc ||| 0x80) &&& 0x80 ≠ 0 := by
  revert toc
  decide

theorem and_alike (toc : BitVec 8) : toc &&& ~~~0x80 &&& 0x7f = toc &&& 0x7f := by
  rw [BitVec.and_assoc]
  rfl

/-- The frame with another bit 7. -/
def withHeader (f : Frame isWide) (toc : BitVec 8) (h : toc &&& 0x7f = f.header &&& 0x7f) :
    Frame isWide where
  header := toc
  payload := f.payload
  sized := by rw [frameType_eq, h, ← frameType_eq, f.sized]

/-- The frames as they arrive. -/
def continued : List (Frame isWide) → List (Frame isWide)
  | [] => []
  | [f] => [f.withHeader (f.header &&& ~~~0x80) (and_alike _)]
  | f :: frames => f.withHeader (f.header ||| 0x80) (or_alike _) :: continued frames

theorem continued_alike (frames : List (Frame isWide)) : frames.Forall₂ Alike (continued frames) := by
  induction frames using continued.induct with
  | case1 => exact .nil
  | case2 f => exact .cons ⟨and_alike _, rfl⟩ .nil
  | case3 f frames hne ih =>
    rw [continued.eq_3 _ _ hne]
    exact .cons ⟨or_alike _, rfl⟩ ih

theorem continued_headers (frames : List (Frame isWide)) :
    AMRWriter.continued (frames.map header) = (continued frames).map header := by
  induction frames using continued.induct with
  | case1 => rfl
  | case2 f => rfl
  | case3 f frames hne ih =>
    have hmap : frames.map header ≠ [] := fun h => hne (List.map_eq_nil_iff.mp h)
    rw [continued.eq_3 _ _ hne, List.map_cons, List.map_cons, AMRWriter.continued.eq_3 _ _ hmap, ih]
    rfl

/-- One entry of the table of contents. -/
theorem tableOfContents_cons (front back : List (BitVec 8)) (f : Frame isWide)
    (hlow : f.header &&& 3 = 0) :
    AAMRAssembler.tableOfContents isWide (front ++ f.header :: back) front.length =
      if f.header &&& 0x80 = 0 then some (.parsed ([f.header], front.length + 1))
      else
        (AAMRAssembler.tableOfContents isWide (front ++ f.header :: back) (front.length + 1)).bind
          fun
          | .malformed => some .malformed
          | .parsed (tocs, offset) => some (.parsed (f.header :: tocs, offset)) := by
  obtain ⟨hsize, hle⟩ := getFrameSize_eq f.sized
  have hroom : ¬(front ++ f.header :: back).length ≤ front.length := by
    rw [List.length_append, List.length_cons]
    omega
  have hlegal : ¬(f.header &&& 3 ≠ 0 ∨
      (isWide ∧ 9 < frameType f.header ∧ frameType f.header ≠ 15) ∨
      (¬isWide ∧ 8 < frameType f.header ∧ frameType f.header ≠ 15)) := by
    rintro (h | ⟨h, h9, -⟩ | ⟨h, h8, -⟩)
    · exact h hlow
    · rw [if_pos h] at hle
      omega
    · rw [if_neg h] at hle
      omega
  rw [AAMRAssembler.tableOfContents, dif_neg hroom, List.getElem?_append_right (Nat.le_refl _),
    Nat.sub_self]
  show (if _ then _ else _) = _
  rw [if_neg hlegal, hsize]
  rfl

/-- The receiver finds the end of the table of contents. -/
theorem tableOfContents_continued (front back : List (BitVec 8)) {frames : List (Frame isWide)}
    (hne : frames ≠ []) (hlow : ∀ f ∈ frames, f.header &&& 3 = 0) :
    AAMRAssembler.tableOfContents isWide
        (front ++ ((continued frames).map header ++ back)) front.length =
      some (.parsed ((continued frames).map header, front.length + frames.length)) := by
  induction frames using continued.induct generalizing front with
  | case1 => exact absurd rfl hne
  | case2 f =>
    have hlow' : f.header &&& ~~~0x80 &&& 3 = 0 := by
      rw [low_eq, and_alike, ← low_eq]
      exact hlow f List.mem_cons_self
    have hlast : f.header &&& ~~~0x80 &&& 0x80 = 0 := by
      rw [BitVec.and_assoc]
      exact BitVec.and_zero
    have hentry := tableOfContents_cons front back (f.withHeader _ (and_alike f.header)) hlow'
    exact hentry.trans (if_pos hlast)
  | case3 f frames hmore ih =>
    have hlow' : (f.header ||| 0x80) &&& 3 = 0 := by
      rw [low_eq, or_alike, ← low_eq]
      exact hlow f List.mem_cons_self
    have hgoes : ¬(f.header ||| 0x80) &&& 0x80 = 0 := or_continues f.header
    have hentry := tableOfContents_cons front ((continued frames).map header ++ back)
      (f.withHeader _ (or_alike f.header)) hlow'
    rw [continued.eq_3 _ _ hmore]
    refine hentry.trans ((if_neg hgoes).trans ?_)
    have hnext := ih (front ++ [f.header ||| 0x80]) hmore
      fun f' hf' => hlow f' (List.mem_cons_of_mem f hf')
    rw [List.append_assoc, List.singleton_append, List.length_append, List.length_singleton] at hnext
    rw [withHeader, hnext, List.length_cons]
    simp only [Option.bind_some, List.map_cons]
    rw [Nat.add_assoc, Nat.add_comm 1]

/-- Every frame gets its contents back. -/
theorem accessUnit_join (front : List (BitVec 8)) (frames : List (Frame isWide)) :
    AAMRAssembler.accessUnit isWide (front ++ frames.flatMap payload) (frames.map header)
      front.length = some (.parsed (join frames)) := by
  induction frames generalizing front with
  | nil => rfl
  | cons f frames ih =>
    have hlength : (front ++ f.payload).length = front.length + (f.payload.length + 1) - 1 :=
      List.length_append
    have hroom : ¬(front ++ (f.payload ++ frames.flatMap payload)).length <
        front.length + (f.payload.length + 1) - 1 := by
      rw [List.length_append, List.length_append]
      omega
    have hpiece : Buffer.load (front ++ (f.payload ++ frames.flatMap payload)) front.length
        (f.payload.length + 1 - 1) = some f.payload :=
      Buffer.load_between rfl rfl
    rw [List.map_cons, AAMRAssembler.accessUnit, (getFrameSize_eq f.sized).1, List.flatMap_cons,
      Option.bind_eq_bind, Option.bind_some, if_neg hroom, hpiece, ← hlength, ← List.append_assoc,
      Option.bind_eq_bind, Option.bind_some, ih]
    rfl

end Frame

namespace AAMRAssembler

open Rtsp.Frame

/-- The packets in `stale` are too late, and number `seqNo` is expected after them. -/
def Expects (a : AAMRAssembler) (stale : List ABuffer) (seqNo : BitVec 32) : Prop :=
  if a.mNextExpectedSeqNoValid then
    a.mNextExpectedSeqNo = seqNo ∧ ∀ b ∈ stale, b.seqNo.toNat < seqNo.toNat
  else stale = []

theorem addPacket_expected {a : AAMRAssembler} {stale rest : List ABuffer} {buffer : ABuffer}
    (h : a.Expects stale buffer.seqNo) :
    a.addPacket (stale ++ buffer :: rest) =
      { a with
        mNextExpectedSeqNoValid := true
        mNextExpectedSeqNo := buffer.seqNo }.addBuffer buffer rest := by
  rw [Expects] at h
  rw [addPacket]
  split at h
  next hvalid =>
    obtain ⟨hnext, hstale⟩ := h
    have hleft : ((stale ++ buffer :: rest).dropWhile fun b =>
        b.seqNo.toNat < a.mNextExpectedSeqNo.toNat) = buffer :: rest := by
      rw [List.dropWhile_append_of_pos, List.dropWhile_cons_of_neg]
      · simp [hnext]
      · intro b hb
        rw [hnext]
        exact decide_eq_true (hstale b hb)
    rw [if_pos hvalid, hleft]
    dsimp only
    rw [if_pos hvalid, if_neg (not_not.mpr hnext.symm), ← hvalid, ← hnext]
  next hvalid =>
    rw [if_neg hvalid, h]
    dsimp only [List.nil_append]
    rw [if_neg hvalid]

theorem addBuffer_parsed {a : AAMRAssembler} {buffer : ABuffer} {rest : List ABuffer}
    {tocs unit : List (BitVec 8)} {offset : Nat} (hsize : 0 < buffer.data.length)
    (htable : tableOfContents a.mIsWide buffer.data 1 = some (.parsed (tocs, offset)))
    (hunit : accessUnit a.mIsWide buffer.data tocs offset = some (.parsed unit)) :
    a.addBuffer buffer rest =
      some ({ a with
        mNextExpectedSeqNo := a.mNextExpectedSeqNo + 1
        posted := a.posted ++ [{ buffer with data := unit }] }, rest, .OK) := by
  rw [addBuffer, if_neg (by omega)]
  dsimp only
  rw [htable, Option.bind_eq_bind, Option.bind_some]
  dsimp only
  rw [hunit]
  rfl

/-- A packet with frames whose low header bits are clear is accepted, and the access unit has the
same frames, but for bit 7 of their headers. -/
theorem addPacket_sendAMRData {w w' : AMRWriter} {mediaData packet : List (BitVec 8)}
    {timeUs : BitVec 64} {a : AAMRAssembler} {stale rest : List ABuffer} {seqNo : BitVec 32}
    (hsent : w.sendAMRData mediaData timeUs = some (w', packet)) (hne : mediaData ≠ [])
    (hlow : ∀ frames : List (Frame w.isWide), mediaData = join frames →
      ∀ f ∈ frames, f.header &&& 3 = 0)
    (hmode : a.mIsWide = w.isWide) (hnext : a.Expects stale seqNo) :
    ∃ unit, a.addPacket (stale ++ receive seqNo packet :: rest) =
        some ({ a with
          mNextExpectedSeqNoValid := true
          mNextExpectedSeqNo := seqNo + 1
          posted := a.posted ++ [⟨seqNo, w.amrTime timeUs, unit⟩] }, rest, .OK) ∧
      unit.length = mediaData.length ∧
      ∃ frames frames' : List (Frame w.isWide), mediaData = join frames ∧ unit = join frames' ∧
        frames.Forall₂ Alike frames' := by
  obtain ⟨frames, rfl, rfl⟩ := sendAMRData_frames hsent
  have hframes : frames ≠ [] := fun h => hne (by rw [h, join_nil])
  have halike := continued_alike frames
  have htable := tableOfContents_continued [0xf0] ((continued frames).flatMap payload) hframes
    (hlow frames rfl)
  have hunit := accessUnit_join ([0xf0] ++ (continued frames).map header) (continued frames)
  rw [List.length_append, List.length_map, ← halike.length_eq, List.append_assoc] at hunit
  refine ⟨join (continued frames), ?_, length_join halike, frames, _, rfl, rfl, halike⟩
  rw [List.append_assoc, receive_header, addPacket_expected hnext, continued_headers,
    ← payloads_alike halike, hmode]
  exact addBuffer_parsed (Nat.succ_pos _) htable hunit

/-- Two frames of the lowest rate. -/
def twoFrames : List (Frame false) :=
  [⟨0x84, List.replicate 12 1, by decide⟩, ⟨0x04, List.replicate 12 2, by decide⟩]

def writer : AMRWriter where
  mSeqNo := 7
  mRTPTimeBase := 100
  mSourceID := 1
  isWide := false
  mNumRTPSent := 0

theorem addPacket_sendAMRData_twoFrames :
    ∃ w' packet unit, writer.sendAMRData (join twoFrames) 20000 = some (w', packet) ∧
      addPacket { mIsWide := false } [receive 7 packet] =
        some ({
          mIsWide := false
          mNextExpectedSeqNoValid := true
          mNextExpectedSeqNo := 8
          posted := [⟨7, writer.amrTime 20000, unit⟩] }, [], .OK) ∧ unit.length = 26 := by
  have hsent : writer.sendAMRData (join twoFrames) 20000 = some (_, _) :=
    sendAMRData_join (by decide)
  have hclear : ∀ f ∈ twoFrames, f.header &&& 3 = 0 :=
    List.forall_mem_cons.mpr ⟨by decide, List.forall_mem_cons.mpr ⟨by decide, nofun⟩⟩
  have hlow : ∀ frames : List (Frame false), join twoFrames = join frames →
      ∀ f ∈ frames, f.header &&& 3 = 0 := by
    intro frames hframes
    rw [← join_injective hframes]
    exact hclear
  have hnext : Expects { mIsWide := false } [] 7 := by
    rw [Expects]
    exact rfl
  obtain ⟨unit, hpacket, hlength, -⟩ := @addPacket_sendAMRData writer _ _ _ _ _ _ [] 7 hsent
    (by decide) hlow rfl hnext
  exact ⟨_, _, unit, hsent, hpacket, hlength⟩

/-- A buffer without frames makes a packet that is refused. -/
theorem addPacket_noFrames :
    ∃ w' packet, writer.sendAMRData [] 0 = some (w', packet) ∧
      addPacket { mIsWide := false } [receive 7 packet] =
        some ({
          mIsWide := false
          mNextExpectedSeqNoValid := true
          mNextExpectedSeqNo := 8 }, [], .MALFORMED_PACKET) := by
  have hnone : join ([] : List (Frame false)) = [] := rfl
  refine ⟨_, _, hnone ▸ sendAMRData_join (w := writer) (by decide), ?_⟩
  rw [List.append_assoc, receive_header, addPacket, if_neg (by decide)]
  dsimp only
  rw [if_neg (by decide), addBuffer, if_neg (by decide)]
  have hend : tableOfContents false [0xf0] 1 = some .malformed := by
    rw [tableOfContents, dif_pos (by decide)]
  show (tableOfContents false [0xf0] 1).bind _ = _
  rw [hend]
  rfl

end AAMRAssembler

end MediaFramework.Rtsp
