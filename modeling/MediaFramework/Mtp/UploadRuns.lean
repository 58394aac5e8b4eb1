import MediaFramework.Mtp.Upload

/-!
# What a device gets

The transfers of an upload are the header and the payload, which is that of the file up to the first
block that cannot be read, and zeros behind.
-/

namespace MediaFramework.Mtp

open LittleEndian

/-! ### Blocks -/

/-- The sizes of `n` bytes in blocks of at most `m`. -/
def chunks (n m : Nat) : List Nat :=
  if _h : n = 0 ∨ m = 0 then [] else min n m :: chunks (n - m) m
termination_by n

/-- How many bytes of the payload go with the header. -/
def firstSize (divisionMode : UrbPacketDivisionMode) (maxSize payloadSize : Nat) : Nat :=
  match divisionMode with
  | .FIRST_PACKET_ONLY_HEADER => 0
  | .FIRST_PACKET_HAS_PAYLOAD => min payloadSize (maxSize - MTP_CONTAINER_HEADER_SIZE)

/-- The sizes of the blocks of the payload, of which the first goes with the header. -/
def blockSizes (divisionMode : UrbPacketDivisionMode) (maxSize payloadSize : Nat) : List Nat :=
  let first := firstSize divisionMode maxSize payloadSize
  first :: chunks (payloadSize - first) maxSize

/-- The calls from `call` on, up to `call'`, give `n` bytes in full: each call for what is left of them
gives some, and none of the calls is an error. -/
inductive InFull (answer : Nat → Nat → Option Nat) : Nat → Nat → Nat → Prop
  | done (call : Nat) : InFull answer call 0 call
  | more {call n got call' : Nat} (hn : 0 < n) (hgot : answer call n = some got) (hpos : 0 < got)
      (hrest : InFull answer (call + 1) (n - min got n) call') : InFull answer call n call'

/-- With the calls from `call` on, `k` bytes are in front of the first of some blocks that cannot be
read in full; `ok` says that there is no such block. -/
inductive Readable (answer : Nat → Nat → Option Nat) : Nat → List Nat → Nat → Bool → Prop
  | nil (call : Nat) : Readable answer call [] 0 true
  | full {call n call' k : Nat} {ns : List Nat} {ok : Bool} (hfull : InFull answer call n call')
      (hrest : Readable answer call' ns k ok) : Readable answer call (n :: ns) (n + k) ok
  | fails {call n : Nat} (ns : List Nat) (hfails : ∀ call', ¬InFull answer call n call') :
      Readable answer call (n :: ns) 0 false

/-- The header, and behind it the bytes of the file as far as its blocks can be read, and zeros. -/
structure Uploaded (divisionMode : UrbPacketDivisionMode) (maxSize payloadSize : Nat) (fd : Fd)
    (result : Int) (transfers : List (List Byte)) : Prop where
  sizes : ∀ data ∈ transfers, 1 ≤ data.length ∧ data.length ≤ maxSize
  contents : ∃ header : List Byte, header.length = MTP_CONTAINER_HEADER_SIZE ∧
    value (header.take 4) = payloadSize + MTP_CONTAINER_HEADER_SIZE ∧
    (divisionMode = .FIRST_PACKET_ONLY_HEADER → transfers.head? = some header) ∧
    ∃ k ≤ payloadSize, ∃ ok,
      Readable fd.answer fd.calls (blockSizes divisionMode maxSize payloadSize) k ok ∧
        transfers.flatten = header ++ (fd.next k ++ List.replicate (payloadSize - k) 0) ∧
        result = if ok then (payloadSize + MTP_CONTAINER_HEADER_SIZE : Int) else -1

variable {fd fd' : Fd} {n m k : Nat} {bytes : List Byte}

/-! ### Reading -/

theorem Fd.next_add (hbytes : fd'.bytes = fd.bytes) (hoffset : fd'.offset = fd.offset + n) (m : Nat) :
    fd.next (n + m) = fd.next n ++ fd'.next m := by
  rw [next, next, next, Blocks.segment_add, hbytes, hoffset]

variable {answer : Nat → Nat → Option Nat} {call call₁ call₂ : Nat}

/-- The calls that give a block are determined. -/
theorem InFull.unique (h₁ : InFull answer call n call₁) (h₂ : InFull answer call n call₂) :
    call₁ = call₂ := by
  induction h₁ with
  | done call =>
    cases h₂ with
    | done => rfl
    | more hn => exact absurd hn (Nat.lt_irrefl 0)
  | more hn hgot _ _ ih =>
    cases h₂ with
    | done => exact absurd hn (Nat.lt_irrefl 0)
    | more _ hgot' _ hrest =>
      obtain rfl := Option.some.inj (hgot.symm.trans hgot')
      exact ih hrest

theorem Readable.unique {ns : List Nat} {k₁ k₂ : Nat} {ok₁ ok₂ : Bool}
    (h₁ : Readable answer call ns k₁ ok₁) (h₂ : Readable answer call ns k₂ ok₂) :
    k₁ = k₂ ∧ ok₁ = ok₂ := by
  induction h₁ generalizing k₂ with
  | nil =>
    cases h₂ with
    | nil => exact ⟨rfl, rfl⟩
  | full hfull _ ih =>
    cases h₂ with
    | full hfull' hrest =>
      obtain rfl := hfull.unique hfull'
      obtain ⟨rfl, rfl⟩ := ih hrest
      exact ⟨rfl, rfl⟩
    | fails _ hfails => exact absurd hfull (hfails _)
  | fails ns hfails =>
    cases h₂ with
    | full hfull => exact absurd hfull (hfails _)
    | fails => exact ⟨rfl, rfl⟩

/-- What is read for a block: what comes next, if the calls give all of it, and nothing otherwise. -/
theorem readExactBytes_spec (fd : Fd) (n : Nat) :
    (∃ fd', readExactBytes fd n = (some (fd.next n), fd') ∧ fd'.bytes = fd.bytes ∧
      fd'.answer = fd.answer ∧ fd'.offset = fd.offset + n ∧ InFull fd.answer fd.calls n fd'.calls) ∨
    (∃ fd', readExactBytes fd n = (none, fd')) ∧ ∀ call', ¬InFull fd.answer fd.calls n call' := by
  induction n using Nat.strongRecOn generalizing fd with
  | ind n ih =>
  rw [readExactBytes]
  split
  · next hzero =>
    subst hzero
    exact .inl ⟨fd, rfl, rfl, rfl, rfl, .done _⟩
  next hpos =>
  rw [Fd.read]
  cases hanswer : fd.answer fd.calls n with
  | none =>
    refine .inr ⟨⟨_, rfl⟩, fun call' hfull => ?_⟩
    cases hfull with
    | done => exact hpos rfl
    | more _ hgot =>
      rw [hanswer] at hgot
      cases hgot
  | some got =>
    dsimp only
    rw [Fd.length_next]
    split
    · next hnone =>
      -- the end of the file
      refine .inr ⟨⟨_, rfl⟩, fun call' hfull => ?_⟩
      cases hfull with
      | done => exact hpos rfl
      | more _ hgot hsome =>
        obtain rfl := Option.some.inj (hanswer.symm.trans hgot)
        omega
    next hsome =>
    have hless : n - min got n < n := by omega
    obtain ⟨fd', hrest, hbytes, hsame, hoffset, hfull⟩ | ⟨⟨fd', hrest⟩, hfails⟩ :=
      ih _ hless (fd.advance (min got n))
    · rw [hrest]
      have hsplit := @Fd.next_add fd (fd.advance (min got n)) _ rfl rfl (n - min got n)
      rw [Nat.add_sub_cancel' (Nat.min_le_right got n)] at hsplit
      refine .inl ⟨fd', by rw [hsplit], hbytes, hsame, ?_,
        .more (by omega) hanswer (by omega) hfull⟩
      rw [hoffset]
      show fd.offset + min got n + (n - min got n) = fd.offset + n
      omega
    · rw [hrest]
      refine .inr ⟨⟨fd', rfl⟩, fun call' hfull => ?_⟩
      cases hfull with
      | done => exact hpos rfl
      | more _ hgot _ hrest' =>
        obtain rfl := Option.some.inj (hanswer.symm.trans hgot)
        exact hfails call' hrest'

/-- The bytes of a block, whether there has been an error then, and the file. -/
def block (readError : Bool) (fd : Fd) (n : Nat) : List Byte × Bool × Fd :=
  match if readError then (none, fd) else readExactBytes fd n with
  | (some bytes, fd) => (bytes, readError, fd)
  | (none, fd) => (List.replicate n 0, true, fd)

@[simp]
theorem length_block (readError : Bool) (fd : Fd) (n : Nat) : (block readError fd n).1.length = n := by
  rw [block]
  split
  · next hread =>
    split at hread
    · cases hread
    · obtain ⟨fd', hfull, -⟩ | ⟨⟨fd', hnone⟩, -⟩ := readExactBytes_spec fd n
      · rw [hfull] at hread
        cases hread
        exact Fd.length_next fd n
      · rw [hnone] at hread
        cases hread
  · exact List.length_replicate

/-- The blocks of the payload, and whether there has been an error. -/
def payload (readError : Bool) (fd : Fd) : List Nat → List (List Byte) × Bool
  | [] => ([], readError)
  | n :: ns =>
    let (data, readError, fd) := block readError fd n
    (data :: (payload readError fd ns).1, (payload readError fd ns).2)

theorem payload_error (fd : Fd) (ns : List Nat) :
    (payload true fd ns).1.flatten = List.replicate ns.sum 0 ∧ (payload true fd ns).2 = true := by
  induction ns with
  | nil => exact ⟨rfl, rfl⟩
  | cons n ns ih =>
    obtain ⟨hdata, herror⟩ := ih
    refine ⟨?_, herror⟩
    show List.replicate n 0 ++ (payload true fd ns).1.flatten = _
    rw [hdata, List.replicate_append_replicate, List.sum_cons]

/-- The payload is that of the file as far as it can be read. -/
theorem payload_spec (fd : Fd) (ns : List Nat) :
    ∃ k ok, Readable fd.answer fd.calls ns k ok ∧ k ≤ ns.sum ∧
      (payload false fd ns).1.flatten = fd.next k ++ List.replicate (ns.sum - k) 0 ∧
      (payload false fd ns).2 = !ok := by
  induction ns generalizing fd with
  | nil => exact ⟨0, true, .nil _, Nat.le_refl 0, rfl, rfl⟩
  | cons n ns ih =>
    rw [payload, block, if_neg Bool.false_ne_true, List.sum_cons]
    obtain ⟨fd', hread, hbytes, hanswer, hoffset, hfull⟩ | ⟨⟨fd', hread⟩, hfails⟩ :=
      readExactBytes_spec fd n
    · obtain ⟨k, ok, hrest, hle, hdata, herror⟩ := ih fd'
      rw [hanswer] at hrest
      rw [hread]
      refine ⟨n + k, ok, .full hfull hrest, Nat.add_le_add_left hle n, ?_, herror⟩
      show fd.next n ++ (payload false fd' ns).1.flatten = _
      rw [hdata, Fd.next_add hbytes hoffset, List.append_assoc, Nat.add_sub_add_left]
    · obtain ⟨hzeros, herror⟩ := payload_error fd' ns
      rw [hread]
      refine ⟨0, false, .fails ns hfails, Nat.zero_le _, ?_, herror⟩
      show List.replicate n 0 ++ (payload true fd' ns).1.flatten = List.replicate (n + ns.sum) 0
      rw [hzeros, List.replicate_append_replicate]

theorem sum_chunks (hm : 0 < m) (n : Nat) : (chunks n m).sum = n := by
  induction n using Nat.strongRecOn with
  | ind n ih =>
  rw [chunks]
  split
  · next hzero => exact (hzero.resolve_right (Nat.ne_of_gt hm)).symm
  · rw [List.sum_cons, ih _ (by omega)]
    omega

theorem firstSize_le (divisionMode : UrbPacketDivisionMode) (maxSize payloadSize : Nat) :
    firstSize divisionMode maxSize payloadSize ≤ payloadSize ∧
      firstSize divisionMode maxSize payloadSize ≤ maxSize - MTP_CONTAINER_HEADER_SIZE := by
  cases divisionMode with
  | FIRST_PACKET_ONLY_HEADER => exact ⟨Nat.zero_le _, Nat.zero_le _⟩
  | FIRST_PACKET_HAS_PAYLOAD => exact ⟨Nat.min_le_left _ _, Nat.min_le_right _ _⟩

theorem sum_blockSizes (hm : 0 < m) (divisionMode : UrbPacketDivisionMode) (payloadSize : Nat) :
    (blockSizes divisionMode m payloadSize).sum = payloadSize := by
  rw [blockSizes, List.sum_cons, sum_chunks hm]
  exact Nat.add_sub_cancel' (firstSize_le divisionMode m payloadSize).1

theorem mem_chunks (h : k ∈ chunks n m) : 1 ≤ k ∧ k ≤ m := by
  induction n using Nat.strongRecOn with
  | ind n ih =>
  rw [chunks] at h
  split at h
  · cases h
  · obtain rfl | h := List.mem_cons.mp h
    · omega
    · exact ih _ (by omega) h

theorem length_mem_payload {readError : Bool} {ns : List Nat}
    (h : bytes ∈ (payload readError fd ns).1) : bytes.length ∈ ns := by
  induction ns generalizing readError fd with
  | nil => cases h
  | cons n ns ih =>
    obtain rfl | h := List.mem_cons.mp h
    · exact List.mem_cons.mpr (.inl (length_block readError fd n))
    · exact List.mem_cons_of_mem _ (ih h)

/-! ### Rounds -/

namespace Upload

variable {transfer : Nat → List Byte → Int} {divisionMode : UrbPacketDivisionMode}
  {payloadSize rounds done maxSize : Nat} {s : Upload}

/-- The upload after a block of the payload has been put behind the first `start` bytes. -/
theorem putPayload_eq (start size : Nat) (s : Upload) :
    s.putPayload start size =
      { s with
        mBuffer := Ring.poke s.mBuffer start (block s.readError s.fd size).1
        fd := (block s.readError s.fd size).2.2
        readError := (block s.readError s.fd size).2.1 } := by
  rw [putPayload, block]
  generalize (if s.readError then (none, s.fd) else readExactBytes s.fd size) = read
  obtain ⟨bytes | bytes, fd⟩ := read
  · rfl
  · rfl

/-- The upload after a round in which `data` has been transferred. -/
def sent (s : Upload) (data : List Byte) : Upload :=
  { s with
    transfers := s.transfers ++ [data]
    processedBytes := s.processedBytes + data.length }

/-- A round whose transfer succeeds. -/
theorem writeFrom_succ (htransfer : ∀ n data, transfer n data = data.length)
    (hmore : s.processedBytes < payloadSize + MTP_CONTAINER_HEADER_SIZE)
    (hsize : (s.prepare divisionMode maxSize payloadSize).2 ≤
      (s.prepare divisionMode maxSize payloadSize).1.mBuffer.length) :
    writeFrom transfer divisionMode maxSize payloadSize (rounds + 1) s =
      writeFrom transfer divisionMode maxSize payloadSize rounds
        ((s.prepare divisionMode maxSize payloadSize).1.sent
          ((s.prepare divisionMode maxSize payloadSize).1.mBuffer.take
            (s.prepare divisionMode maxSize payloadSize).2)) := by
  have hlength := List.length_take_of_le hsize
  rw [writeFrom, if_pos hmore]
  dsimp only
  rw [htransfer, hlength, if_neg (by simp)]
  congr 1
  rw [sent, hlength]

theorem prepare_sent (divisionMode : UrbPacketDivisionMode) (maxSize payloadSize : Nat)
    (h : s.processedBytes = MTP_CONTAINER_HEADER_SIZE + done) :
    s.prepare divisionMode maxSize payloadSize =
      (s.putPayload 0 (min (payloadSize - done) maxSize), min (payloadSize - done) maxSize) := by
  have hsent : s.processedBytes ≠ 0 := by
    rw [h, MTP_CONTAINER_HEADER_SIZE]
    omega
  rw [prepare]
  dsimp only
  rw [if_pos hsent]
  dsimp only
  rw [if_pos (.inl hsent), if_pos hsent, h, Nat.add_sub_cancel_left, Nat.sub_zero, Nat.zero_add]

/-- The rounds behind the header transfer the blocks of the rest. -/
theorem writeFrom_sent (htransfer : ∀ n data, transfer n data = data.length) (hmax : 0 < maxSize)
    (hbuffer : maxSize ≤ s.mBuffer.length)
    (hdone : s.processedBytes = MTP_CONTAINER_HEADER_SIZE + done) (hle : done ≤ payloadSize)
    (hrounds : payloadSize - done < rounds) :
    ∃ s', writeFrom transfer divisionMode maxSize payloadSize rounds s =
        some (if (payload s.readError s.fd (chunks (payloadSize - done) maxSize)).2 then -1
          else (payloadSize + MTP_CONTAINER_HEADER_SIZE : Int), s') ∧
      s'.transfers =
        s.transfers ++ (payload s.readError s.fd (chunks (payloadSize - done) maxSize)).1 := by
  -- each round sends a block of what is left, from the front of the buffer
  induction rounds generalizing s done with
  | zero => omega
  | succ rounds ih =>
  rw [chunks]
  by_cases hrest : payloadSize - done = 0
  · rw [dif_pos (.inl hrest), writeFrom, if_neg (by omega)]
    refine ⟨s, ?_, (List.append_nil _).symm⟩
    have hall : s.processedBytes = payloadSize + MTP_CONTAINER_HEADER_SIZE := by omega
    rw [hall, payload]
    rfl
  · have hprepare := prepare_sent divisionMode maxSize payloadSize hdone
    have hblock := length_block s.readError s.fd (min (payloadSize - done) maxSize)
    generalize hsize : min (payloadSize - done) maxSize = size at hprepare hblock
    have hput := putPayload_eq 0 size s
    have hroom : 0 + (block s.readError s.fd size).1.length ≤ s.mBuffer.length := by omega
    have hlength : (s.putPayload 0 size).mBuffer.length = s.mBuffer.length := by
      rw [hput]
      exact Ring.length_poke hroom
    have hbytes : (s.putPayload 0 size).mBuffer.take size = (block s.readError s.fd size).1 := by
      rw [hput]
      show (Ring.poke s.mBuffer 0 _).take size = _
      rw [Ring.poke, List.take_zero, List.nil_append, List.take_left' hblock]
    -- the next round counts from behind this block
    have hprocessed : ((s.putPayload 0 size).sent (block s.readError s.fd size).1).processedBytes =
        MTP_CONTAINER_HEADER_SIZE + (done + size) := by
      rw [sent, hput]
      show s.processedBytes + _ = _
      rw [hblock, hdone, Nat.add_assoc]
    have hnext : payloadSize - done - maxSize = payloadSize - (done + size) := by omega
    rw [dif_neg (by omega), payload, hnext]
    rw [writeFrom_succ htransfer (by omega) (by
      rw [hprepare, hlength]
      omega), hprepare]
    dsimp only
    rw [hbytes]
    obtain ⟨s', hrun, htransfers⟩ :=
      ih (s := (s.putPayload 0 size).sent (block s.readError s.fd size).1)
        (hbuffer.trans (Nat.le_of_eq hlength.symm)) hprocessed (by omega) (by omega)
    rw [hput] at htransfers
    refine ⟨s', ?_, htransfers.trans ?_⟩
    · rw [hrun, hput]
      rfl
    · exact List.append_assoc _ _ _

/-- The first twelve bytes of the buffer once the length and the type are there. -/
def header (payloadSize : Nat) (s : Upload) : List Byte :=
  (s.putHeader (payloadSize + MTP_CONTAINER_HEADER_SIZE)).mBuffer.take MTP_CONTAINER_HEADER_SIZE

theorem putHeader_mBuffer (hbuffer : MTP_CONTAINER_HEADER_SIZE ≤ s.mBuffer.length) (n : Nat) :
    (s.putHeader n).mBuffer =
      digits 4 n ++ (digits 2 MTP_CONTAINER_TYPE_DATA ++ s.mBuffer.drop 6) := by
  show Ring.poke (Ring.poke s.mBuffer 0 (digits 4 n)) 4 (digits 2 MTP_CONTAINER_TYPE_DATA) = _
  have hfour : (digits 4 n).length = 4 := length_digits 4 n
  have hfront : Ring.poke s.mBuffer 0 (digits 4 n) =
      digits 4 n ++ ((s.mBuffer.drop 4).take 2 ++ s.mBuffer.drop 6) := by
    have hsplit : s.mBuffer.drop 4 = (s.mBuffer.drop 4).take 2 ++ s.mBuffer.drop 6 := by
      conv_lhs => rw [← List.take_append_drop 2 (s.mBuffer.drop 4), List.drop_drop]
    rw [← hsplit, Ring.poke, List.take_zero, List.nil_append, Nat.zero_add, hfour]
  have htwo : ((s.mBuffer.drop 4).take 2).length = (digits 2 MTP_CONTAINER_TYPE_DATA).length := by
    rw [length_digits, List.length_take, List.length_drop]
    rw [MTP_CONTAINER_HEADER_SIZE] at hbuffer
    omega
  rw [hfront, Ring.poke_between hfour htwo]

theorem length_putHeader (hbuffer : MTP_CONTAINER_HEADER_SIZE ≤ s.mBuffer.length) (n : Nat) :
    (s.putHeader n).mBuffer.length = s.mBuffer.length := by
  rw [putHeader_mBuffer hbuffer, List.length_append, List.length_append, length_digits,
    length_digits, List.length_drop]
  rw [MTP_CONTAINER_HEADER_SIZE] at hbuffer
  omega

theorem length_header (hbuffer : MTP_CONTAINER_HEADER_SIZE ≤ s.mBuffer.length) (payloadSize : Nat) :
    (s.header payloadSize).length = MTP_CONTAINER_HEADER_SIZE := by
  rw [header, List.length_take, length_putHeader hbuffer, Nat.min_eq_left hbuffer]

/-- The header tells the length of all. -/
theorem value_header (hbuffer : MTP_CONTAINER_HEADER_SIZE ≤ s.mBuffer.length)
    (hpayload : payloadSize + MTP_CONTAINER_HEADER_SIZE < 2 ^ 32) :
    value ((s.header payloadSize).take 4) = payloadSize + MTP_CONTAINER_HEADER_SIZE := by
  rw [header, List.take_take, putHeader_mBuffer hbuffer]
  show value (List.take 4 _) = _
  rw [List.take_left' (length_digits 4 _), value_digits]
  exact Nat.mod_eq_of_lt hpayload

/-- The first round, where no payload with the header is the same as none of its bytes. -/
theorem prepare_first (divisionMode : UrbPacketDivisionMode) (maxSize payloadSize : Nat)
    (h : s.processedBytes = 0) :
    s.prepare divisionMode maxSize payloadSize =
      ((s.putHeader (payloadSize + MTP_CONTAINER_HEADER_SIZE)).putPayload MTP_CONTAINER_HEADER_SIZE
          (firstSize divisionMode maxSize payloadSize),
        MTP_CONTAINER_HEADER_SIZE + firstSize divisionMode maxSize payloadSize) := by
  have hsent : ¬ s.processedBytes ≠ 0 := by
    rw [h]
    exact fun hne => hne rfl
  rw [prepare]
  dsimp only
  rw [if_neg hsent]
  dsimp only
  cases divisionMode with
  | FIRST_PACKET_HAS_PAYLOAD => rw [if_pos (.inr rfl), if_neg hsent, Nat.sub_zero, firstSize]
  | FIRST_PACKET_ONLY_HEADER =>
    have hmode : ¬ (s.processedBytes ≠ 0 ∨ UrbPacketDivisionMode.FIRST_PACKET_ONLY_HEADER =
        .FIRST_PACKET_HAS_PAYLOAD) := by
      rintro (hne | hmode)
      · exact hsent hne
      · cases hmode
    have hblock : ∀ (readError : Bool) (fd : Fd), block readError fd 0 = ([], readError, fd) := by
      intro readError fd
      rw [block, readExactBytes, dif_pos rfl]
      cases readError with
      | false => rfl
      | true => rfl
    rw [if_neg hmode, firstSize, putPayload_eq, hblock, Ring.poke, List.append_nil, List.length_nil,
      Nat.add_zero, List.take_append_drop]

/-- The first transfer is the header with the first block, and the others are the other blocks. -/
theorem writeFrom_first (htransfer : ∀ n data, transfer n data = data.length)
    (hmax : MTP_CONTAINER_HEADER_SIZE < maxSize) (hbuffer : maxSize ≤ s.mBuffer.length)
    (hstart : s.processedBytes = 0) (hrounds : payloadSize < rounds) {data : List Byte}
    {readError : Bool} {fd : Fd} {blocks : List (List Byte) × Bool}
    (hdata : block s.readError s.fd (firstSize divisionMode maxSize payloadSize) =
      (data, readError, fd))
    (hblocks : payload readError fd
      (chunks (payloadSize - firstSize divisionMode maxSize payloadSize) maxSize) = blocks) :
    ∃ s', writeFrom transfer divisionMode maxSize payloadSize (rounds + 1) s =
        some (if blocks.2 then -1 else (payloadSize + MTP_CONTAINER_HEADER_SIZE : Int), s') ∧
      s'.transfers = s.transfers ++ (s.header payloadSize ++ data) :: blocks.1 := by
  have hroom := (Nat.le_of_lt hmax).trans hbuffer
  have hprepare := prepare_first divisionMode maxSize payloadSize hstart
  obtain ⟨hfirst, hfit⟩ := firstSize_le divisionMode maxSize payloadSize
  generalize firstSize divisionMode maxSize payloadSize = size at hprepare hfirst hfit hdata hblocks
  have hblock : data.length = size := by
    have hblock := length_block s.readError s.fd size
    rwa [hdata] at hblock
  have hlength := length_putHeader hroom (payloadSize + MTP_CONTAINER_HEADER_SIZE)
  have hheader := length_header hroom payloadSize
  have hput := putPayload_eq MTP_CONTAINER_HEADER_SIZE size
    (s.putHeader (payloadSize + MTP_CONTAINER_HEADER_SIZE))
  rw [show (s.putHeader (payloadSize + MTP_CONTAINER_HEADER_SIZE)).readError = s.readError from rfl,
    show (s.putHeader (payloadSize + MTP_CONTAINER_HEADER_SIZE)).fd = s.fd from rfl, hdata] at hput
  generalize hfull : (s.putHeader (payloadSize + MTP_CONTAINER_HEADER_SIZE)).putPayload
    MTP_CONTAINER_HEADER_SIZE size = full at hprepare hput
  -- the data stand in the buffer behind the header, and the buffer keeps its length
  have hsame : full.mBuffer.length = s.mBuffer.length := by
    rw [hput, ← hlength]
    refine Ring.length_poke ?_
    show MTP_CONTAINER_HEADER_SIZE + data.length ≤ _
    omega
  have hbytes : full.mBuffer.take (MTP_CONTAINER_HEADER_SIZE + size) = s.header payloadSize ++ data := by
    have hfront : (s.header payloadSize ++ data).length = MTP_CONTAINER_HEADER_SIZE + size := by
      rw [List.length_append, hheader, hblock]
    rw [hput]
    show (Ring.poke _ _ data).take _ = _
    rw [Ring.poke, ← header, List.take_left' hfront]
  have hprocessed : (full.sent (s.header payloadSize ++ data)).processedBytes =
      MTP_CONTAINER_HEADER_SIZE + size := by
    rw [sent, hput]
    show s.processedBytes + (s.header payloadSize ++ data).length = _
    rw [List.length_append, hheader, hblock, hstart, Nat.zero_add]
  have hrest : payload full.readError full.fd (chunks (payloadSize - size) maxSize) = blocks := by
    rw [hput]
    exact hblocks
  have hmore : s.processedBytes < payloadSize + MTP_CONTAINER_HEADER_SIZE := by
    rw [hstart]
    exact Nat.add_pos_right _ (by decide)
  rw [writeFrom_succ htransfer hmore (by
    rw [hprepare, hsame]
    show MTP_CONTAINER_HEADER_SIZE + size ≤ _
    omega), hprepare]
  dsimp only
  rw [hbytes, ← hrest]
  -- the rounds that follow have no header
  obtain ⟨s', hrun, htransfers⟩ :=
    writeFrom_sent (s := full.sent (s.header payloadSize ++ data)) htransfer
      (Nat.lt_of_le_of_lt (Nat.zero_le _) hmax) (hbuffer.trans (Nat.le_of_eq hsame.symm)) hprocessed
      hfirst (Nat.lt_of_le_of_lt (Nat.sub_le _ _) hrounds)
  refine ⟨s', hrun, htransfers.trans ?_⟩
  show full.transfers ++ [_] ++ _ = _
  rw [hput, List.append_assoc]
  rfl

end Upload

theorem lt_maxBulkTransferSize (hpos : 0 < m) (hle : m ≤ MTP_BUFFER_SIZE) :
    MTP_CONTAINER_HEADER_SIZE < maxBulkTransferSize m ∧ maxBulkTransferSize m ≤ MTP_BUFFER_SIZE := by
  have hdiv := Nat.div_add_mod MTP_BUFFER_SIZE m
  have hone : 1 ≤ MTP_BUFFER_SIZE / m := Nat.div_pos hle hpos
  have hmul : m ≤ m * (MTP_BUFFER_SIZE / m) := Nat.le_mul_of_pos_right m hone
  have hmod : MTP_BUFFER_SIZE % m < m := Nat.mod_lt _ hpos
  rw [maxBulkTransferSize]
  generalize m * (MTP_BUFFER_SIZE / m) = whole at hdiv hmul
  rw [MTP_CONTAINER_HEADER_SIZE]
  have hsize : MTP_BUFFER_SIZE = 16384 := rfl
  omega

/-- Whatever the file does, the device gets as many bytes as the header says where its transfers
succeed: those of the file up to the first block that cannot be read in full, and zeros behind. -/
theorem write_uploads {transfer : Nat → List Byte → Int} {max_packet_size : Int} {payloadSize : Nat}
    (hpos : 0 < max_packet_size) (hle : max_packet_size ≤ MTP_BUFFER_SIZE)
    (hpayload : payloadSize + MTP_CONTAINER_HEADER_SIZE < 2 ^ 32)
    (htransfer : ∀ n data, transfer n data = data.length)
    (divisionMode : UrbPacketDivisionMode) (memory : PacketMemory) (fd : Fd) {rounds : Nat}
    (hrounds : payloadSize + 1 < rounds) :
    ∃ result transfers,
      write transfer max_packet_size divisionMode memory fd payloadSize rounds =
        some (result, transfers) ∧
      Uploaded divisionMode (maxBulkTransferSize max_packet_size.toNat) payloadSize fd result
        transfers := by
  obtain ⟨hmin, hmax⟩ := lt_maxBulkTransferSize (m := max_packet_size.toNat) (by omega) (by omega)
  rw [write, if_neg (by omega)]
  generalize maxBulkTransferSize max_packet_size.toNat = maxSize at hmin hmax ⊢
  obtain ⟨rounds, rfl⟩ := Nat.exists_eq_add_of_le' (Nat.lt_of_le_of_lt (Nat.zero_le _) hrounds)
  have hbuffer : maxSize ≤ memory.bytes.length := hmax.trans memory.size
  have hroom := (Nat.le_of_lt hmin).trans hbuffer
  have hzero : 0 < maxSize := Nat.lt_of_le_of_lt (Nat.zero_le _) hmin
  generalize hs : ({ mBuffer := memory.bytes, fd } : Upload) = s
  have hmemory : s.mBuffer = memory.bytes := by rw [← hs]
  have htransfers₀ : s.transfers = [] := by rw [← hs]
  rw [← hmemory] at hbuffer hroom
  cases hdata : block false fd (firstSize divisionMode maxSize payloadSize) with
  | mk data after =>
  obtain ⟨readError, fd'⟩ := after
  have hfirst : block s.readError s.fd (firstSize divisionMode maxSize payloadSize) =
      (data, readError, fd') := by
    rw [← hs]
    exact hdata
  have hstart : s.processedBytes = 0 := by rw [← hs]
  -- the first transfer has the header, and the data that fit or none
  obtain ⟨s', hrun, htransfers⟩ :=
    Upload.writeFrom_first htransfer hmin hbuffer hstart (Nat.lt_of_succ_lt_succ hrounds) hfirst rfl
  -- what stands in the blocks, by the answers of the file
  obtain ⟨k, ok, hreadable, hread, hflat, herror⟩ :=
    payload_spec fd (blockSizes divisionMode maxSize payloadSize)
  rw [sum_blockSizes hzero] at hread hflat
  rw [blockSizes, payload, hdata] at hflat herror
  rw [htransfers₀, List.nil_append] at htransfers
  have hlength : data.length = firstSize divisionMode maxSize payloadSize := by
    have hblock := length_block false fd (firstSize divisionMode maxSize payloadSize)
    rwa [hdata] at hblock
  have hheader := Upload.length_header hroom payloadSize
  refine ⟨_, s'.transfers, by rw [hrun]; rfl, ?_, ⟨_, hheader,
    Upload.value_header hroom hpayload, ?_, k, hread, ok, hreadable, ?_, ?_⟩⟩
  · intro bytes hmem
    rw [htransfers] at hmem
    obtain rfl | hmem := List.mem_cons.mp hmem
    · rw [List.length_append, hheader, hlength]
      have hfit := (firstSize_le divisionMode maxSize payloadSize).2
      rw [MTP_CONTAINER_HEADER_SIZE] at hmin hfit ⊢
      omega
    · exact mem_chunks (length_mem_payload hmem)
  · intro hmode
    rw [hmode, firstSize, List.length_eq_zero_iff] at hlength
    rw [htransfers, hlength, List.append_nil]
    rfl
  · rw [htransfers, List.flatten_cons, List.append_assoc]
    exact congrArg _ hflat
  · have hresult : (payload readError fd' (chunks
        (payloadSize - firstSize divisionMode maxSize payloadSize) maxSize)).2 = !ok := herror
    rw [hresult]
    cases ok with
    | false => rfl
    | true => rfl

/-- A file that ends after three short reads, the first two of which give the first block. -/
def endingFd : Fd where
  bytes := fun i => BitVec.ofNat 8 i
  answer := fun call _ => some ([8000, 181, 3].getD call 0)

/-- The second block cannot be read in full: its bytes are zeros, also the three that were read. -/
theorem write_uploads_shortReads :
    ∃ header transfers,
      write (fun _ data => data.length) 8193 .FIRST_PACKET_HAS_PAYLOAD
          ⟨List.replicate MTP_BUFFER_SIZE 0, by rw [List.length_replicate]⟩ endingFd 8185 8187 =
        some (-1, transfers) ∧
      header.length = MTP_CONTAINER_HEADER_SIZE ∧
      transfers.flatten = header ++ (endingFd.next 8181 ++ List.replicate 4 0) := by
  obtain ⟨result, transfers, hwrite, -, header, hlength, -, -, k, -, ok, hreadable, hflat, hresult⟩ :=
    @write_uploads (fun _ data => data.length) 8193 8185 (by decide) (by decide) (by decide) (fun _ _ => rfl)
      .FIRST_PACKET_HAS_PAYLOAD ⟨List.replicate MTP_BUFFER_SIZE 0, by rw [List.length_replicate]⟩
      endingFd 8187 (by decide)
  have hblocks : blockSizes .FIRST_PACKET_HAS_PAYLOAD (maxBulkTransferSize (8193 : Int).toNat) 8185 =
      [8181, 4] := by
    have hfour : chunks 4 8193 = [4] := by
      rw [chunks, chunks]
      rfl
    exact congrArg (8181 :: ·) hfour
  have hfirst : InFull endingFd.answer 0 8181 2 :=
    .more (by decide) rfl (by decide) (.more (by decide) rfl (by decide) (.done 2))
  have hsecond : ∀ call', ¬InFull endingFd.answer 2 4 call' := by
    intro call' hfull
    cases hfull with
    | more _ hgot _ hrest =>
      obtain rfl := Option.some.inj hgot
      cases hrest with
      | more _ hend hpos =>
        obtain rfl := Option.some.inj hend
        exact absurd hpos (Nat.lt_irrefl 0)
  rw [hblocks] at hreadable
  obtain ⟨rfl, rfl⟩ := hreadable.unique (.full hfirst (.fails [] hsecond))
  rw [hwrite, hresult]
  exact ⟨header, transfers, rfl, hlength, hflat⟩

end MediaFramework.Mtp
