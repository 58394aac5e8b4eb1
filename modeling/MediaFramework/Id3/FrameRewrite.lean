import MediaFramework.Id3.Encoding

/-!
# Any tag of version 4

What the pass over the frames makes of bytes that nobody vouches for. They are frames up to a zero
id or to less than a header, and each frame is rewritten by itself.
-/

namespace MediaFramework.Id3

open Ebml (number)

/-- The bytes of a frame as they stand in a tag. -/
structure RawFrame where
  id : List Byte
  size : List Byte
  flags : BitVec 16
  data : List Byte
  id_length : id.length = 4
  id_ne : id ≠ [0, 0, 0, 0]
  size_length : size.length = 4

/-- Bytes are moved over those before them. -/
theorem memmove_down {front gap data back : List Byte} {dst src n : Nat} (hdst : front.length = dst)
    (hsrc : front.length + gap.length = src) (hn : data.length = n) :
    memmove (front ++ (gap ++ (data ++ back))) dst src n =
      front ++ (data ++ (gap ++ (data ++ back)).drop data.length) := by
  have hslice : Ring.slice (front ++ (gap ++ (data ++ back))) src n = data := by
    rw [← List.append_assoc]
    exact Ring.slice_append (by rw [List.length_append, hsrc]) hn
  rw [memmove, hslice, Ring.poke, List.take_left' hdst, ← List.drop_drop, List.drop_left' hdst,
    List.append_assoc]

namespace RawFrame

def bytes (f : RawFrame) : List Byte := f.id ++ (f.size ++ (flagBytes f.flags ++ f.data))

def join (frames : List RawFrame) : List Byte := frames.flatMap bytes

@[simp]
theorem join_cons (f : RawFrame) (frames : List RawFrame) :
    join (f :: frames) = f.bytes ++ join frames := rfl

/-- The data without the data length in front. -/
def strip (flags : BitVec 16) (data : List Byte) : List Byte :=
  if flags &&& 1 ≠ 0 then data.drop 4 else data

/-- The data without the zeros that were put in. -/
def resync (flags : BitVec 16) (data : List Byte) : List Byte :=
  if flags &&& 2 ≠ 0 then desync 0 data else data

def payload (f : RawFrame) : List Byte := resync f.flags (strip f.flags f.data)

def keptFlags (f : RawFrame) : BitVec 16 := f.flags &&& ~~~1 &&& ~~~2

def Changed (iTunesHack : Bool) (f : RawFrame) : Prop := f.keptFlags ≠ f.flags ∨ iTunesHack

instance (iTunesHack : Bool) (f : RawFrame) : Decidable (f.Changed iTunesHack) :=
  inferInstanceAs (Decidable (_ ∨ _))

def rewrite (iTunesHack : Bool) (f : RawFrame) : RawFrame where
  id := f.id
  size := if f.Changed iTunesHack then syncsafe f.payload.length else f.size
  flags := f.keptFlags
  data := f.payload
  id_length := f.id_length
  id_ne := f.id_ne
  size_length := by
    split
    · rfl
    · exact f.size_length

/-- The size is that of the data, and there is room for a data length. -/
structure Legal (iTunesHack : Bool) (f : RawFrame) : Prop where
  size : (if iTunesHack then some (number f.size) else ParseSyncsafeInteger f.size) =
    some f.data.length
  indicator : f.flags &&& 1 ≠ 0 → 4 ≤ f.data.length

theorem length_strip_le (flags : BitVec 16) (data : List Byte) :
    (strip flags data).length ≤ data.length := by
  rw [strip]
  split
  · rw [List.length_drop]
    exact Nat.sub_le _ _
  · exact Nat.le_refl _

theorem length_resync_le (flags : BitVec 16) (data : List Byte) :
    (resync flags data).length ≤ data.length := by
  rw [resync]
  split
  · exact length_desync_le 0 data
  · exact Nat.le_refl _

theorem length_bytes (f : RawFrame) : f.bytes.length = 10 + f.data.length := by
  rw [bytes, List.length_append, List.length_append, List.length_append, f.id_length, f.size_length]
  show 4 + (4 + (2 + _)) = _
  omega

theorem length_rewrite_le (iTunesHack : Bool) (f : RawFrame) :
    (f.rewrite iTunesHack).bytes.length ≤ f.bytes.length := by
  have hpayload := (length_resync_le f.flags _).trans (length_strip_le f.flags f.data)
  rw [length_bytes, length_bytes]
  exact Nat.add_le_add_left hpayload 10

/-! ### One frame -/

variable {front data : List Byte} {flags : BitVec 16} {offset : Nat} (rest junk : List Byte)

/-- The data length is gone. -/
theorem stripIndicator_spec (hfront : front.length = offset + 10)
    (hfour : flags &&& 1 ≠ 0 → 4 ≤ data.length) :
    ∃ junk', stripIndicator flags (front ++ (data ++ (rest ++ junk)))
        (front ++ (data ++ rest)).length offset data.length =
      some (front ++ (strip flags data ++ (rest ++ junk')),
        (front ++ (strip flags data ++ rest)).length, (strip flags data).length) ∧
      (strip flags data ++ (rest ++ junk')).length = (data ++ (rest ++ junk)).length := by
  rw [stripIndicator, strip]
  by_cases hindicator : flags &&& 1 ≠ 0
  · rw [if_pos hindicator, if_pos hindicator]
    have hlong := hfour hindicator
    have hdata : data = data.take 4 ++ data.drop 4 := (List.take_append_drop 4 data).symm
    have hgap : (data.take 4).length = 4 := List.length_take_of_le hlong
    have hlength : (front ++ (data ++ rest)).length =
        offset + 14 + (data.drop 4 ++ rest).length := by
      simp only [List.length_append, List.length_drop]
      omega
    have hshape : front ++ (data ++ (rest ++ junk)) =
        front ++ (data.take 4 ++ ((data.drop 4 ++ rest) ++ junk)) := by
      rw [List.append_assoc (data.drop 4), ← List.append_assoc (data.take 4), ← hdata]
    rw [hlength, if_neg (by omega), hshape, memmove_down hfront (by omega) (by omega)]
    refine ⟨(data.take 4 ++ ((data.drop 4 ++ rest) ++ junk)).drop (data.drop 4 ++ rest).length,
      ?_, ?_⟩
    · congr 2
      · rw [List.append_assoc (data.drop 4)]
      · congr 1
        · simp only [List.length_append, List.length_drop]
          omega
        · rw [List.length_drop]
    · simp only [List.length_append, List.length_drop, hgap]
      omega
  · rw [if_neg hindicator, if_neg hindicator]
    exact ⟨junk, rfl, rfl⟩

/-- The zeros that were put in are gone. -/
theorem resynchronizeFrame_spec (flags : BitVec 16) (data : List Byte)
    (hfront : front.length = offset + 10) :
    ∃ junk', resynchronizeFrame flags (front ++ (data ++ (rest ++ junk)))
        (front ++ (data ++ rest)).length (front ++ (data ++ (rest ++ junk))).length offset
        data.length =
      (front ++ (resync flags data ++ (rest ++ junk')),
        (front ++ (resync flags data ++ rest)).length, (resync flags data).length) ∧
      (resync flags data ++ (rest ++ junk')).length = (data ++ (rest ++ junk)).length := by
  rw [resynchronizeFrame, resync]
  by_cases hunsync : flags &&& 2 ≠ 0
  · rw [if_pos hunsync]
    by_cases htwo : data.length ≥ 2
    · have hne : data ≠ [] := List.ne_nil_of_length_pos (by omega)
      obtain ⟨junk', hrun, hjunk⟩ := removeFrameUnsynchronization_spec (rest ++ junk)
        (front ++ (data ++ rest)).length hfront hne
      have hle := length_desync_le 0 data
      rw [if_pos ⟨hunsync, htwo⟩, hrun]
      refine ⟨junk ++ junk', ?_, ?_⟩
      · simp only [List.append_assoc, List.length_append]
        congr 2
        omega
      · simp only [List.length_append]
        omega
    · -- a single byte stays, and so does nothing
      have hsame : desync 0 data = data := by
        match data, htwo with
        | [], _ => rfl
        | [byte], _ => rw [desync_zero_cons, desync]
        | _ :: _ :: _, h => exact absurd (Nat.le_add_left _ _) h
      rw [if_neg fun h => htwo h.2, hsame]
      exact ⟨junk, rfl, rfl⟩
  · rw [if_neg fun h => hunsync h.1, if_neg hunsync]
    exact ⟨junk, rfl, rfl⟩

/-- The header of the rewritten frame. -/
theorem storeHeader_spec (iTunesHack : Bool) (f : RawFrame) (front back : List Byte) :
    storeHeader iTunesHack f.flags f.keptFlags
        (front ++ (f.id ++ (f.size ++ (flagBytes f.flags ++ (f.payload ++ back))))) front.length
        f.payload.length =
      front ++ ((f.rewrite iTunesHack).bytes ++ back) := by
  have hbytes : front ++ ((f.rewrite iTunesHack).bytes ++ back) = (front ++ f.id) ++
      ((f.rewrite iTunesHack).size ++ (flagBytes f.keptFlags ++ (f.payload ++ back))) := by
    rw [bytes]
    simp only [List.append_assoc]
    rfl
  have hfront : (front ++ f.id).length = front.length + 4 := by
    rw [List.length_append, f.id_length]
  rw [storeHeader, hbytes, ← List.append_assoc front]
  by_cases hchanged : f.Changed iTunesHack
  · have hsize : (f.rewrite iTunesHack).size = syncsafe f.payload.length := if_pos hchanged
    have hflags : (flagBytes f.flags).length = (flagBytes f.keptFlags).length := rfl
    have hfront' : ((front ++ f.id) ++ syncsafe f.payload.length).length = front.length + 8 := by
      rw [List.length_append, hfront, length_syncsafe]
    have hstored : f.keptFlags ≠ f.flags ∨ iTunesHack := hchanged
    rw [if_pos hstored, hsize, Ring.poke_between hfront (by rw [f.size_length, length_syncsafe]),
      ← List.append_assoc (front ++ f.id)]
    exact (Ring.poke_between hfront' hflags).trans (List.append_assoc _ _ _)
  · have hsize : (f.rewrite iTunesHack).size = f.size := if_neg hchanged
    have hkept : ¬(f.keptFlags ≠ f.flags ∨ iTunesHack) := hchanged
    have hflags : f.keptFlags = f.flags := not_not.mp (not_or.mp hkept).1
    rw [if_neg hkept, hsize, hflags]

theorem keptFlag (flags : BitVec 16) : flags &&& ~~~1 &&& 2 = flags &&& 2 := by
  rw [BitVec.and_assoc]
  rfl

/-- The header of a frame is read as it is. -/
theorem slices (f : RawFrame) (front back : List Byte) :
    Ring.slice (front ++ (f.bytes ++ back)) front.length 4 = f.id ∧
      Ring.slice (front ++ (f.bytes ++ back)) (front.length + 4) 4 = f.size ∧
      U16_AT (front ++ (f.bytes ++ back)) (front.length + 8) = f.flags := by
  have hshape : front ++ (f.bytes ++ back) =
      front ++ (f.id ++ (f.size ++ (flagBytes f.flags ++ (f.data ++ back)))) := by
    rw [bytes]
    simp only [List.append_assoc]
  rw [hshape]
  refine ⟨Ring.slice_append rfl f.id_length, ?_, ?_⟩
  · rw [← List.append_assoc front]
    exact Ring.slice_append (by rw [List.length_append, f.id_length]) f.size_length
  · have hslice : Ring.slice (front ++ f.id ++ f.size ++ (flagBytes f.flags ++ (f.data ++ back)))
        (front.length + 8) 2 = flagBytes f.flags :=
      Ring.slice_append (by simp only [List.length_append, f.id_length, f.size_length]) rfl
    rw [← List.append_assoc front, ← List.append_assoc (front ++ f.id), U16_AT, hslice,
      number_flagBytes]

/-- One pass over a legal frame. What is behind it stays as it is. -/
theorem removeUnsynchronizationAt_legal {iTunesHack : Bool} {f : RawFrame}
    (h : f.Legal iTunesHack) {oldSize : Nat}
    (hold : (front ++ (f.bytes ++ (rest ++ junk))).length = oldSize) :
    ∃ junk', removeUnsynchronizationAt iTunesHack oldSize (front ++ (f.bytes ++ (rest ++ junk)))
        (front ++ (f.bytes ++ rest)).length front.length =
      some (front ++ ((f.rewrite iTunesHack).bytes ++ (rest ++ junk')),
        (front ++ ((f.rewrite iTunesHack).bytes ++ rest)).length,
        (front ++ (f.rewrite iTunesHack).bytes).length) ∧
      (front ++ ((f.rewrite iTunesHack).bytes ++ (rest ++ junk'))).length = oldSize := by
  obtain ⟨-, hsizeField, hflags⟩ := f.slices front (rest ++ junk)
  have hfits : ¬f.data.length > (front ++ (f.bytes ++ rest)).length - 10 - front.length := by
    simp only [List.length_append, f.length_bytes]
    omega
  have hframeSize : frameSize iTunesHack (front ++ (f.bytes ++ (rest ++ junk))) front.length =
      some f.data.length := by
    rw [frameSize, U32_AT, hsizeField]
    exact h.size
  have hshape : ∀ data back, front ++ (f.id ++ (f.size ++ (flagBytes f.flags ++ (data ++ back)))) =
      (front ++ (f.id ++ (f.size ++ flagBytes f.flags))) ++ (data ++ back) := by
    intro data back
    simp only [List.append_assoc]
  have hbytes : ∀ back, front ++ (f.bytes ++ back) =
      (front ++ (f.id ++ (f.size ++ flagBytes f.flags))) ++ (f.data ++ back) := by
    intro back
    rw [bytes, ← hshape]
    simp only [List.append_assoc]
  have hfront : (front ++ (f.id ++ (f.size ++ flagBytes f.flags))).length = front.length + 10 := by
    simp only [List.length_append, f.id_length, f.size_length]
    rfl
  obtain ⟨junk₁, hstripped, hlength₁⟩ :=
    stripIndicator_spec rest junk hfront h.indicator
  obtain ⟨junk₂, hresynchronised, hlength₂⟩ := resynchronizeFrame_spec rest junk₁
    (f.flags &&& ~~~1) (strip f.flags f.data) hfront
  have hpayload : resync (f.flags &&& ~~~1) (strip f.flags f.data) = f.payload := by
    rw [payload, resync, resync, keptFlag]
  rw [hpayload] at hresynchronised hlength₂
  have hold₁ : ((front ++ (f.id ++ (f.size ++ flagBytes f.flags))) ++
      (strip f.flags f.data ++ (rest ++ junk₁))).length = oldSize := by
    rw [← hold, hbytes]
    exact (List.length_append.trans (congrArg _ hlength₁)).trans List.length_append.symm
  rw [hold₁] at hresynchronised
  have hstored := storeHeader_spec iTunesHack f front (rest ++ junk₂)
  rw [hshape, keptFlags] at hstored
  have hrewritten : ∀ back : List Byte, (front ++ ((f.rewrite iTunesHack).bytes ++ back)).length =
      ((front ++ (f.id ++ (f.size ++ flagBytes f.flags))) ++ (f.payload ++ back)).length := by
    intro back
    simp only [List.length_append, length_bytes, f.id_length, f.size_length]
    show _ + (10 + f.payload.length + _) = _ + (4 + (4 + 2)) + _
    omega
  refine ⟨junk₂, ?_, ?_⟩
  · rw [removeUnsynchronizationAt, hframeSize]
    dsimp only
    rw [if_neg hfits, hflags, hbytes, hbytes, hstripped]
    dsimp only
    rw [hresynchronised]
    dsimp only
    rw [hstored, ← hrewritten]
    congr 3
    rw [List.length_append, length_bytes, Nat.add_assoc]
    rfl
  · rw [hrewritten, ← hold₁]
    exact (List.length_append.trans (congrArg _ hlength₂)).trans List.length_append.symm

/-! ### The frames of a tag -/

theorem flagBytes_number (high low : Byte) :
    flagBytes (BitVec.ofNat 16 (number [high, low])) = [high, low] := by
  have hhigh := high.isLt
  have hlow := low.isLt
  have hnumber : number [high, low] = high.toNat * 256 + low.toNat := by
    simp [number, Nat.mul_comm]
  rw [flagBytes, hnumber]
  congr 1
  · apply BitVec.eq_of_toNat_eq
    simp only [BitVec.toNat_setWidth, BitVec.toNat_ushiftRight, BitVec.toNat_ofNat,
      Nat.shiftRight_eq_div_pow]
    omega
  · congr 1
    apply BitVec.eq_of_toNat_eq
    simp only [BitVec.toNat_setWidth, BitVec.toNat_ofNat]
    omega

theorem slice_inside {front unread junk : List Byte} {i n : Nat} (h : i + n ≤ unread.length) :
    Ring.slice (front ++ (unread ++ junk)) (front.length + i) n = (unread.drop i).take n := by
  rw [Ring.slice, ← List.drop_drop, List.drop_left, List.drop_append_of_le_length (by omega),
    List.take_append_of_le_length (by rw [List.length_drop]; omega)]

/-- A pass that succeeds is one over a legal frame. -/
theorem exists_legal {iTunesHack : Bool} {oldSize : Nat} {front unread junk : List Byte}
    {res : List Byte × Nat × Nat} (hroom : 10 ≤ unread.length) (hid : unread.take 4 ≠ [0, 0, 0, 0])
    (h : removeUnsynchronizationAt iTunesHack oldSize (front ++ (unread ++ junk))
      (front ++ unread).length front.length = some res) :
    ∃ (f : RawFrame) (rest : List Byte), f.Legal iTunesHack ∧ unread = f.bytes ++ rest := by
  obtain ⟨high, low, hflagBytes⟩ : ∃ high low, (unread.drop 8).take 2 = [high, low] := by
    apply List.length_eq_two.mp
    rw [List.length_take, List.length_drop]
    omega
  rw [removeUnsynchronizationAt, frameSize, U32_AT, U16_AT, slice_inside (by omega),
    slice_inside (by omega), hflagBytes] at h
  split at h
  · cases h
  next dataSize hsize =>
  split at h
  · cases h
  next hfits =>
  rw [List.length_append] at hfits
  have hdata : ((unread.drop 10).take dataSize).length = dataSize := by
    rw [List.length_take, List.length_drop]
    omega
  have hfour : BitVec.ofNat 16 (number [high, low]) &&& 1 ≠ 0 → 4 ≤ dataSize := by
    intro hindicator
    by_contra hshort
    have hnone : stripIndicator (BitVec.ofNat 16 (number [high, low])) (front ++ (unread ++ junk))
        (front ++ unread).length front.length dataSize = none := by
      rw [stripIndicator, if_pos hindicator, if_pos (.inr (.inr (Nat.lt_of_not_le hshort)))]
    dsimp only at h
    rw [hnone] at h
    cases h
  refine ⟨{
    id := unread.take 4
    size := (unread.drop 4).take 4
    flags := BitVec.ofNat 16 (number [high, low])
    data := (unread.drop 10).take dataSize
    id_length := List.length_take_of_le (by omega)
    id_ne := hid
    size_length := List.length_take_of_le (by rw [List.length_drop]; omega) },
    (unread.drop 10).drop dataSize, ⟨?_, ?_⟩, ?_⟩
  · rw [hdata]
    exact hsize
  · rw [hdata]
    exact hfour
  · have hnext : ∀ i n, (unread.drop i).take n ++ unread.drop (i + n) = unread.drop i := by
      intro i n
      rw [← List.drop_drop, List.take_append_drop]
    rw [bytes, flagBytes_number, ← hflagBytes]
    simp only [List.append_assoc, List.take_append_drop]
    rw [hnext 8 2, hnext 4 4, List.take_append_drop]

/-- Where the pass over the frames stops. -/
def AtEnd (tail : List Byte) : Prop :=
  tail.length < 10 ∨ tail.take 4 = [0, 0, 0, 0]

/-- The loop goes over legal frames to the end, and rewrites each by itself. -/
theorem removeUnsynchronizationV2_4From_frames {iTunesHack : Bool} {oldSize passes : Nat}
    {front unread junk mData' : List Byte} {mSize' : Nat}
    (hold : (front ++ (unread ++ junk)).length = oldSize) (hpasses : unread.length < passes)
    (h : removeUnsynchronizationV2_4From iTunesHack oldSize passes (front ++ (unread ++ junk))
      (front ++ unread).length front.length = some (mData', mSize')) :
    ∃ (frames : List RawFrame) (tail junk' : List Byte), (∀ f ∈ frames, f.Legal iTunesHack) ∧
      unread = join frames ++ tail ∧ AtEnd tail ∧
      mData' = front ++ (join (frames.map (rewrite iTunesHack)) ++ (tail ++ junk')) ∧
      mSize' = (front ++ (join (frames.map (rewrite iTunesHack)) ++ tail)).length ∧
      mData'.length = oldSize := by
  induction passes generalizing front unread junk with
  | zero => exact absurd hpasses (Nat.not_lt_zero _)
  | succ passes ih =>
    have hstop : AtEnd unread → removeUnsynchronizationV2_4From iTunesHack oldSize (passes + 1)
        (front ++ (unread ++ junk)) (front ++ unread).length front.length =
          some (front ++ (unread ++ junk), (front ++ unread).length) := by
      intro hend
      rw [removeUnsynchronizationV2_4From]
      by_cases hroom : 10 ≤ unread.length
      · have hid : Ring.slice (front ++ (unread ++ junk)) front.length 4 = [0, 0, 0, 0] :=
          (slice_inside (i := 0) (by omega)).trans (hend.resolve_left (Nat.not_lt.mpr hroom))
        rw [if_neg (not_not.mpr (by rw [List.length_append]; omega)), if_pos hid]
      · rw [if_pos (by rw [List.length_append]; omega)]
    by_cases hend : AtEnd unread
    · rw [hstop hend] at h
      obtain ⟨rfl, rfl⟩ := Prod.mk.inj (Option.some.inj h)
      exact ⟨[], unread, junk, nofun, rfl, hend, rfl, rfl, hold⟩
    · obtain ⟨hroom, hid⟩ := not_or.mp hend
      rw [not_lt] at hroom
      have hfirst : Ring.slice (front ++ (unread ++ junk)) front.length 4 = unread.take 4 :=
        slice_inside (i := 0) (by omega)
      rw [removeUnsynchronizationV2_4From,
        if_neg (not_not.mpr (by rw [List.length_append]; omega)), hfirst, if_neg hid] at h
      split at h
      · cases h
      next mData mSize offset hpass =>
      obtain ⟨f, rest, hlegal, rfl⟩ := exists_legal hroom hid hpass
      rw [List.append_assoc] at hold hpass
      obtain ⟨junk₁, hrewritten, hold₁⟩ := removeUnsynchronizationAt_legal rest junk hlegal hold
      rw [hrewritten] at hpass
      obtain ⟨rfl, heq⟩ := Prod.mk.inj (Option.some.inj hpass)
      obtain ⟨rfl, rfl⟩ := Prod.mk.inj heq
      rw [← List.append_assoc front] at h hold₁
      rw [← List.append_assoc front] at h
      have hshorter : rest.length < passes := by
        rw [List.length_append, f.length_bytes] at hpasses
        omega
      obtain ⟨frames, tail, junk', hall, rfl, htail, rfl, rfl, hlength⟩ := ih hold₁ hshorter h
      refine ⟨f :: frames, tail, junk', List.forall_mem_cons.mpr ⟨hlegal, hall⟩, ?_, htail, ?_, ?_,
        hlength⟩
      · rw [join_cons, List.append_assoc]
      · simp only [List.map_cons, join_cons, List.append_assoc]
      · simp only [List.map_cons, join_cons, List.append_assoc]

theorem length_join_rewrite_le (iTunesHack : Bool) (frames : List RawFrame) :
    (join (frames.map (rewrite iTunesHack))).length ≤ (join frames).length := by
  induction frames with
  | nil => exact Nat.le_refl _
  | cons f frames ih =>
    rw [List.map_cons, join_cons, join_cons, List.length_append, List.length_append]
    exact Nat.add_le_add (length_rewrite_le iTunesHack f) ih

theorem length_bytes_le_join {f : RawFrame} {frames : List RawFrame} (hf : f ∈ frames) :
    f.bytes.length ≤ (join frames).length := by
  obtain ⟨before, after, rfl⟩ := List.append_of_mem hf
  rw [join, List.flatMap_append, List.flatMap_cons, List.length_append, List.length_append]
  omega

/-- What a successful pass leaves: the rewritten frames, the rest as it was, and zeros. -/
theorem removeUnsynchronizationV2_4_frames {iTunesHack : Bool} {mData mData' : List Byte}
    {mSize' : Nat}
    (h : removeUnsynchronizationV2_4 iTunesHack mData mData.length = some (mData', mSize')) :
    ∃ (frames : List RawFrame) (tail : List Byte), (∀ f ∈ frames, f.Legal iTunesHack) ∧
      mData = join frames ++ tail ∧ AtEnd tail ∧
      mSize' = (join (frames.map (rewrite iTunesHack)) ++ tail).length ∧ mSize' ≤ mData.length ∧
      mData' = join (frames.map (rewrite iTunesHack)) ++
        (tail ++ List.replicate (mData.length - mSize') 0) := by
  obtain ⟨⟨mData₁, mSize₁⟩, hloop, heq⟩ := Option.bind_eq_some_iff.mp h
  obtain ⟨rfl, rfl⟩ := Prod.mk.inj (Option.some.inj heq)
  have hwhole : mData = [] ++ (mData ++ []) := by rw [List.append_nil, List.nil_append]
  have hloop' : removeUnsynchronizationV2_4From iTunesHack mData.length (mData.length + 1)
      ([] ++ (mData ++ [])) ([] ++ mData).length ([] : List Byte).length =
        some (mData₁, mSize₁) := by
    rw [← hwhole]
    exact hloop
  obtain ⟨frames, tail, junk, hall, hframes, htail, rfl, rfl, hlength⟩ :=
    removeUnsynchronizationV2_4From_frames (by rw [← hwhole]) (Nat.lt_succ_self _) hloop'
  have hle := length_join_rewrite_le iTunesHack frames
  have hsize : (join (frames.map (rewrite iTunesHack)) ++ tail).length ≤ mData.length := by
    rw [hframes, List.length_append, List.length_append]
    omega
  refine ⟨frames, tail, hall, hframes, htail, rfl, hsize, ?_⟩
  have hzeros : mData.length - (join (frames.map (rewrite iTunesHack)) ++ tail).length =
      junk.length := by
    rw [← hlength]
    simp only [List.nil_append, List.length_append]
    omega
  have hpoke : Ring.poke ((join (frames.map (rewrite iTunesHack)) ++ tail) ++ (junk ++ []))
      (join (frames.map (rewrite iTunesHack)) ++ tail).length (List.replicate junk.length 0) = _ :=
    Ring.poke_between rfl List.length_replicate.symm
  simp only [List.nil_append, List.append_nil, List.append_assoc] at hpoke hzeros ⊢
  rw [hzeros, hpoke]

end RawFrame

end MediaFramework.Id3
