import MediaFramework.Foundation.ABitReader
import MediaFramework.Lib.Machine

/-!
# Pushing bits back

`ABitReader::putBits` (`media/libstagefright/foundation/ABitReader.cpp`), and a reader under any
reads and push-backs: it is a cursor into the bits of its buffer.
-/

namespace MediaFramework.Foundation

open Bits Consume

namespace ABitReader

/-- The loop of `putBits`. What is not yet in the reservoir begins at byte `offset` of the
buffer; stepping out of the buffer gives `none`. The number of bits left is a `size_t`, which
may pass below zero on the way. -/
def unread (buffer : List (BitVec 8)) (n : Nat) : Nat → ABitReader → Option ABitReader
  | 0, r => if 32 < (r.mNumBitsLeft + n) % 2 ^ 64 then none else some r
  | offset + 1, r =>
    if 32 < (r.mNumBitsLeft + n) % 2 ^ 64 then
      unread buffer n offset
        { r with
          mNumBitsLeft := (r.mNumBitsLeft + (2 ^ 64 - 8)) % 2 ^ 64
          mData := buffer.drop offset }
    else some r

/-- `mData` is a pointer into `buffer`. -/
def dataOffset (buffer : List (BitVec 8)) (r : ABitReader) : Nat :=
  buffer.length - r.mData.length

end ABitReader

open ABitReader

def putBits (buffer : List (BitVec 8)) (x : BitVec 32) (n : Nat) : BitReading Unit := fun r =>
  if r.mOverRead then some ((), r)
  else if 32 < n then none
  else (unread buffer n (r.dataOffset buffer) r).map fun r =>
    ((), { r with
      mReservoir := r.mReservoir >>> n ||| x <<< (32 - n)
      mNumBitsLeft := (r.mNumBitsLeft + n) % 2 ^ 64 })

/-- The last `n` bits of a word. -/
def lowBits (n : Nat) (x : BitVec 32) : List Bool := topBits n (x <<< (32 - n))

/-- A reader in use, with the bits that it has returned and that are not pushed back. -/
structure Session where
  reader : ABitReader
  returned : List Bool := []
  deriving DecidableEq

namespace Session

inductive Call
  | getBits (n : Nat)
  | putBits (x : BitVec 32) (n : Nat)

/-- A call that aborts or leaves the buffer has no successor. -/
def step (buffer : List (BitVec 8)) (s : Session) : Call → Option Session
  | .getBits n => (getBits n s.reader).map fun (ret, reader) =>
    { reader := reader, returned := s.returned ++ lowBits n ret }
  | .putBits x n => (putBits buffer x n s.reader).map fun (_, reader) =>
    { reader := reader, returned := s.returned.take (s.returned.length - n) }

/-- Up to 31 bits at a time, and the bits pushed back are the last ones returned. -/
def Permitted (s : Session) : Call → Prop
  | .getBits n => 1 ≤ n ∧ n ≤ 31
  | .putBits x n => (1 ≤ n ∧ n ≤ 31) ∧ lowBits n x = s.returned.drop (s.returned.length - n)

instance (s : Session) (call : Call) : Decidable (s.Permitted call) :=
  match call with
  | .getBits _ => inferInstanceAs (Decidable (_ ∧ _))
  | .putBits _ _ => inferInstanceAs (Decidable (_ ∧ _))

/-- A new reader under any calls. -/
def machine (buffer : List (BitVec 8)) : Machine Session Call where
  init := { reader := { mData := buffer } }
  step := step buffer

end Session

/-! ### What a read leaves alone -/

namespace ABitReader

variable {r r' : ABitReader} {bs : List Bool} {buffer : List (BitVec 8)} {n : Nat}

theorem refill_frame (h : r.refill = (r', true)) :
    r'.mData <:+ r.mData ∧ r'.mOverRead = r.mOverRead := by
  rw [refill] at h
  split at h
  · rw [fillReservoir] at h
    split at h
    · cases h
    · cases h
      exact ⟨List.drop_suffix 4 _, rfl⟩
  · cases h
    exact ⟨List.suffix_refl _, rfl⟩

theorem Left.ne_nil_of_refill (h : r.Left bs) (hr : r.refill = (r', true)) : bs ≠ [] := by
  rintro rfl
  obtain ⟨hbits, hdata⟩ := List.append_eq_nil_iff.mp h.1.symm
  have hleft : r.mNumBitsLeft = 0 := by
    rw [← length_topBits r.mNumBitsLeft r.mReservoir, hbits, List.length_nil]
  have hnone : r.mData = [] := by
    have hlen := length_bytesBits r.mData
    rw [hdata, List.length_nil] at hlen
    exact List.length_eq_zero_iff.mp (by omega)
  rw [ABitReader.refill, if_pos hleft, ABitReader.fillReservoir, if_pos hnone] at hr
  cases hr

/-- A read that succeeds found its bits, and only moves on in the data. -/
theorem Left.getBitsLoop_frame {passes : Nat} (hpasses : n ≤ passes) (h : r.Left bs)
    {result ret : BitVec 32} (hloop : ABitReader.getBitsLoop passes r n result = (r', some ret)) :
    n ≤ bs.length ∧ r'.mData <:+ r.mData ∧ r'.mOverRead = r.mOverRead := by
  induction passes generalizing r n bs result with
  | zero =>
    cases hloop
    exact ⟨by omega, List.suffix_refl _, rfl⟩
  | succ passes ih =>
    rw [ABitReader.getBitsLoop] at hloop
    by_cases hn : n = 0
    · rw [if_pos hn] at hloop
      cases hloop
      exact ⟨by omega, List.suffix_refl _, rfl⟩
    rw [if_neg hn] at hloop
    split at hloop
    · cases hloop
    next r₁ hrefill =>
    obtain ⟨_, hr₁, hleft, hpos⟩ := h.refill (h.ne_nil_of_refill hrefill)
    rw [hrefill] at hr₁
    cases hr₁
    obtain ⟨hdata, hover⟩ := refill_frame hrefill
    have hfits : r₁.mNumBitsLeft ≤ bs.length := by
      rw [hleft.length, numBitsLeft]
      omega
    generalize hm : min n r₁.mNumBitsLeft = m at hloop
    obtain ⟨hlen, hdata', hover'⟩ := ih (by omega) (hleft.take (by omega)).2 hloop
    rw [List.length_drop] at hlen
    exact ⟨by omega, hdata'.trans hdata, hover'.trans hover⟩

theorem Left.getBits_frame (h : r.Left bs) {ret : BitVec 32}
    (hget : getBits n r = some (ret, r')) :
    n ≤ bs.length ∧ r'.mData <:+ r.mData ∧ r'.mOverRead = r.mOverRead := by
  rw [getBits, ABitReader.getBitsGraceful] at hget
  split at hget
  · next hgraceful =>
    cases hget
    split at hgraceful
    · cases hgraceful
    · exact h.getBitsLoop_frame (Nat.le_refl _) hgraceful
  · cases hget

/-! ### What a push-back does -/

/-- The bytes from an offset on are the bits from eight times the offset on. -/
theorem bytesBits_drop (bytes : List (BitVec 8)) (i : Nat) :
    bytesBits (bytes.drop i) = (bytesBits bytes).drop (8 * i) := by
  conv_rhs => rw [← List.take_append_drop i bytes, bytesBits_append]
  by_cases hi : i ≤ bytes.length
  · rw [List.drop_left' (by rw [length_bytesBits, List.length_take_of_le hi])]
  · rw [List.drop_eq_nil_of_le (Nat.le_of_not_le hi), bytesBits, List.flatMap_nil,
      List.append_nil, List.drop_eq_nil_of_le]
    rw [length_bytesBits, List.length_take]
    omega

/-- Whole bytes go back into the data until the reservoir has room for `n` bits. -/
theorem unread_eq {offset room : Nat} (hroom : (r.mNumBitsLeft + n) % 2 ^ 64 = room)
    (henough : room ≤ 8 * offset) (hdata : r.mData = buffer.drop offset) :
    ∃ bytes r', unread buffer n offset r = some r' ∧ bytes ≤ offset ∧
      (r'.mNumBitsLeft + n) % 2 ^ 64 + 8 * bytes = room ∧ (r'.mNumBitsLeft + n) % 2 ^ 64 ≤ 32 ∧
      r'.mData = buffer.drop (offset - bytes) ∧ r'.mReservoir = r.mReservoir ∧
      r'.mOverRead = r.mOverRead := by
  induction offset generalizing r room with
  | zero =>
    refine ⟨0, r, ?_, Nat.le_refl _, hroom, by omega, hdata, rfl, rfl⟩
    rw [unread, if_neg (by omega)]
  | succ offset ih =>
    rw [unread]
    by_cases hfull : 32 < (r.mNumBitsLeft + n) % 2 ^ 64
    · rw [if_pos hfull]
      -- eight bits fewer are eight fewer also where the counter passes below zero
      have hless : ((r.mNumBitsLeft + (2 ^ 64 - 8)) % 2 ^ 64 + n) % 2 ^ 64 = room - 8 := by
        omega
      obtain ⟨bytes, r', hr', hle, hsum, hfits, hdata', hrest⟩ :=
        ih (r := { r with
          mNumBitsLeft := (r.mNumBitsLeft + (2 ^ 64 - 8)) % 2 ^ 64
          mData := buffer.drop offset }) hless (by omega) rfl
      refine ⟨bytes + 1, r', hr', by omega, by omega, hfits, ?_, hrest⟩
      rw [hdata', Nat.add_sub_add_right]
    · rw [if_neg hfull]
      exact ⟨0, r, rfl, Nat.zero_le _, hroom, by omega, hdata, rfl, rfl⟩

/-- The reservoir after a push-back begins with the bits pushed back, as far as they are not in
the data again. -/
theorem take_pushed {x : BitVec 32} {k : Nat} (hn : n ≤ 32) (hk : k ≤ 32)
    (hleft : k ≤ n + r.mNumBitsLeft) :
    topBits k (r.mReservoir >>> n ||| x <<< (32 - n)) =
      (lowBits n x ++ (topBits r.mNumBitsLeft r.mReservoir ++ bytesBits r.mData)).take k := by
  have hlow : (lowBits n x).length = n := length_topBits n _
  rw [← take_topBits hk, topBits_pushed hn, ← lowBits, List.take_append, List.take_append, hlow,
    take_topBits (by omega), List.take_append_of_le_length (by rw [length_topBits]; omega),
    take_topBits (by omega)]

theorem Left.putBits (h : r.Left bs) {x : BitVec 32} {done : List Bool} (hn : n ≤ 31)
    (hbits : bytesBits buffer = done ++ (lowBits n x ++ bs)) (hdata : r.mData <:+ buffer)
    (hover : r.mOverRead = false) :
    ∃ r', putBits buffer x n r = some ((), r') ∧ r'.Left (lowBits n x ++ bs) ∧
      r'.mData <:+ buffer ∧ r'.mOverRead = false := by
  have hlow : (lowBits n x).length = n := length_topBits n _
  have hlen := congrArg List.length hbits
  rw [length_bytesBits, List.length_append, List.length_append, hlow, h.length, numBitsLeft] at hlen
  have hsub := hdata.length_le
  have hfits := h.2
  have hoffset : 8 * r.dataOffset buffer = done.length + n + r.mNumBitsLeft := by
    rw [dataOffset]
    omega
  have hroom : (r.mNumBitsLeft + n) % 2 ^ 64 = n + r.mNumBitsLeft := by omega
  have hptr : r.mData = buffer.drop (r.dataOffset buffer) := List.suffix_iff_eq_drop.mp hdata
  obtain ⟨bytes, r₁, hunread, hle, hsum, hfits', hdata', hres, hover'⟩ :=
    unread_eq hroom (by omega) hptr
  generalize hk : (r₁.mNumBitsLeft + n) % 2 ^ 64 = k at hsum hfits'
  have hrest : bytesBits (buffer.drop (r.dataOffset buffer - bytes)) =
      (lowBits n x ++ bs).drop k := by
    have hskip : 8 * (r.dataOffset buffer - bytes) = done.length + k := by omega
    rw [bytesBits_drop, hskip, hbits, ← List.drop_drop, List.drop_left' rfl]
  refine ⟨_, by rw [Foundation.putBits, if_neg (by simp [hover]), if_neg (by omega), hunread]; rfl,
    ⟨?_, ?_⟩, ?_, ?_⟩
  · dsimp only
    rw [hk, hres, take_pushed (by omega) hfits' (by omega), ← h.1, hdata', hrest,
      List.take_append_drop]
  · show (r₁.mNumBitsLeft + n) % 2 ^ 64 ≤ 32
    omega
  · show r₁.mData <:+ buffer
    rw [hdata']
    exact List.drop_suffix _ _
  · show r₁.mOverRead = false
    rw [hover', hover]

end ABitReader

namespace Session

variable {buffer : List (BitVec 8)} {s s' : Session} {n : Nat}

/-- What has been returned and what the reader has left make up the bits of the buffer. -/
structure Tracks (buffer : List (BitVec 8)) (s : Session) : Prop where
  left : ∃ bs, bytesBits buffer = s.returned ++ bs ∧ s.reader.Left bs
  within : s.reader.mData <:+ buffer
  notOverRead : s.reader.mOverRead = false

theorem lowBits_ofBits {bs : List Bool} (h : bs.length ≤ 32) :
    lowBits bs.length (ofBits 32 bs) = bs :=
  topBits_ofBits h

/-- The bits that come after those returned. -/
def next (buffer : List (BitVec 8)) (s : Session) (n : Nat) : List Bool :=
  ((bytesBits buffer).drop s.returned.length).take n

theorem length_next (h : s.returned.length + n ≤ (bytesBits buffer).length) :
    (s.next buffer n).length = n := by
  rw [next, List.length_take, List.length_drop]
  omega

/-- A read that the buffer has the bits for returns them. -/
theorem Tracks.getBits (h : s.Tracks buffer) (hn : n ≤ 32)
    (hfits : s.returned.length + n ≤ (bytesBits buffer).length) :
    ∃ reader, getBits n s.reader = some (ofBits 32 (s.next buffer n), reader) ∧
      Tracks buffer { reader := reader, returned := s.returned ++ s.next buffer n } := by
  obtain ⟨bs, hbits, hleft⟩ := h.left
  have hlen := length_next hfits
  have hsplit : bs = s.next buffer n ++ bs.drop n := by
    rw [next, hbits, List.drop_left' rfl, List.take_append_drop]
  have hread := reads_getBits (by omega) s.reader _ (hsplit ▸ hleft)
  rw [hlen] at hread
  obtain ⟨_, reader, hget, rfl, hrest⟩ := hread
  obtain ⟨-, hdata, hover⟩ := hleft.getBits_frame hget
  refine ⟨reader, hget, ⟨bs.drop n, ?_, hrest⟩, hdata.trans h.within, ?_⟩
  · rw [List.append_assoc, ← hsplit, hbits]
  · rw [hover, h.notOverRead]

/-- No other read succeeds. -/
theorem Tracks.getBits_none (h : s.Tracks buffer)
    (hout : (bytesBits buffer).length < s.returned.length + n) : Foundation.getBits n s.reader = none := by
  obtain ⟨bs, hbits, hleft⟩ := h.left
  cases hget : Foundation.getBits n s.reader with
  | none => rfl
  | some res =>
    obtain ⟨ret, reader⟩ := res
    have hn := (hleft.getBits_frame hget).1
    rw [hbits, List.length_append] at hout
    omega

/-- Bits that were the last ones returned are the next ones again. -/
theorem Tracks.putBits (h : s.Tracks buffer) {x : BitVec 32} (hn : n ≤ 31)
    (hx : lowBits n x = s.returned.drop (s.returned.length - n)) :
    ∃ reader, putBits buffer x n s.reader = some ((), reader) ∧
      Tracks buffer
        { reader := reader, returned := s.returned.take (s.returned.length - n) } := by
  obtain ⟨bs, hbits, hleft⟩ := h.left
  have hback : bytesBits buffer =
      s.returned.take (s.returned.length - n) ++ (lowBits n x ++ bs) := by
    rw [hx, ← List.append_assoc, List.take_append_drop, hbits]
  obtain ⟨reader, hput, hleft', hdata, hover⟩ := hleft.putBits hn hback h.within h.notOverRead
  exact ⟨reader, hput, ⟨_, hback, hleft'⟩, hdata, hover⟩

theorem Tracks.step (h : s.Tracks buffer) {call : Call} (hp : s.Permitted call)
    (hs : s.step buffer call = some s') : s'.Tracks buffer := by
  cases call with
  | getBits n =>
    by_cases hfits : s.returned.length + n ≤ (bytesBits buffer).length
    · have hn : n ≤ 32 := Nat.le_succ_of_le hp.2
      obtain ⟨reader, hget, htracks⟩ := h.getBits hn hfits
      have hlow : lowBits n (ofBits 32 (s.next buffer n)) = s.next buffer n := by
        have hlen : (s.next buffer n).length ≤ 32 := by
          rw [length_next hfits]
          exact hn
        have hbits := lowBits_ofBits hlen
        rwa [length_next hfits] at hbits
      rw [Session.step, hget] at hs
      cases hs
      dsimp only
      rw [hlow]
      exact htracks
    · rw [Session.step, h.getBits_none (Nat.lt_of_not_le hfits)] at hs
      cases hs
  | putBits x n =>
    obtain ⟨reader, hput, htracks⟩ := h.putBits hp.1.2 hp.2
    rw [Session.step, hput] at hs
    cases hs
    exact htracks

theorem Tracks.of_run (h : (machine buffer).Run Permitted s) : s.Tracks buffer := by
  refine h.invariant ?_ fun s call s' hs hp hstep => hs.step hp hstep
  exact ⟨⟨_, rfl, left_mk buffer⟩, List.suffix_refl _, rfl⟩

/-- After any reads and push-backs the reader is a cursor into the bits of its buffer: those
returned and not pushed back are the bits before the cursor, the others are left, the next read
returns the bits at the cursor or fails for want of them, and what was returned last can be
pushed back. -/
theorem reader_is_cursor (h : (machine buffer).Run Permitted s) :
    s.returned = (bytesBits buffer).take s.returned.length ∧
      s.reader.numBitsLeft + s.returned.length = 8 * buffer.length ∧
      s.reader.mNumBitsLeft ≤ 32 ∧
      (∀ n, 1 ≤ n → n ≤ 31 → (getBits n s.reader).map Prod.fst =
        if s.returned.length + n ≤ 8 * buffer.length then
          some (ofBits 32 (((bytesBits buffer).drop s.returned.length).take n))
        else none) ∧
      ∀ x n, s.Permitted (.putBits x n) → ∃ reader, s.step buffer (.putBits x n) =
        some { reader := reader, returned := s.returned.take (s.returned.length - n) } := by
  have htracks := Tracks.of_run h
  obtain ⟨bs, hbits, hleft⟩ := htracks.left
  refine ⟨?_, ?_, hleft.2, fun n _ hn => ?_, fun x n hp => ?_⟩
  · rw [hbits, List.take_left' rfl]
  · rw [← length_bytesBits, hbits, List.length_append, hleft.length]
    omega
  · rw [← length_bytesBits]
    split
    · next hfits =>
      obtain ⟨reader, hget, -⟩ := htracks.getBits (by omega) hfits
      rw [hget, Option.map_some, next]
    · next hout => rw [htracks.getBits_none (Nat.lt_of_not_le hout), Option.map_none]
  · obtain ⟨reader, hput, -⟩ := htracks.putBits hp.1.2 hp.2
    exact ⟨reader, by rw [Session.step, hput, Option.map_some]⟩

/-- Two bits are left in the reservoir when 31 are pushed back. -/
theorem reader_is_cursor_pushBack :
    ∃ s, (machine [1, 2, 3, 4, 5, 6, 7, 8]).Run Permitted s ∧ s.returned.length = 31 ∧
      s.reader.mNumBitsLeft = 25 ∧ s.reader.numBitsLeft + s.returned.length = 64 ∧
      (getBits 31 s.reader).map Prod.fst = some 0x014181c2 := by
  have hr := Machine.Run.of_exec (machine [1, 2, 3, 4, 5, 6, 7, 8]) Permitted
    [.getBits 31, .getBits 31, .putBits 0x014181c2 31] (by decide)
  exact ⟨_, hr, by decide, by decide, (reader_is_cursor hr).2.1, by decide⟩

end Session

end MediaFramework.Foundation
