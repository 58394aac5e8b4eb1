import MediaFramework.Id3.FrameRewrite
import MediaFramework.Lib.Buffer

/-!
# The accesses of the pass over the frames

`removeUnsynchronizationV2_4` again, with `none` for an access that is not to `mData`. There is no
such access, whatever the bytes are.
-/

namespace MediaFramework.Id3

namespace Checked

def memmove (mData : List Byte) (dst src n : Nat) : Option (List Byte) :=
  (Buffer.load mData src n).bind (Buffer.store mData dst)

def removeFrameUnsynchronizationFrom : Nat → Nat → FrameLoop → Option FrameLoop
  | 0, _, s => some s
  | passes + 1, i, s =>
    if i + 1 < s.dataSize then do
      let prev ← s.mData[s.readOffset - 1]?
      let byte ← s.mData[s.readOffset]?
      let s :=
        if prev = 0xFF ∧ byte = 0 then
          { s with
            readOffset := s.readOffset + 1
            mSize := s.mSize - 1
            dataSize := s.dataSize - 1 }
        else s
      if i + 1 < s.dataSize then
        let byte ← s.mData[s.readOffset]?
        let _old ← s.mData[s.writeOffset]?
        removeFrameUnsynchronizationFrom passes (i + 1)
          { s with
            mData := s.mData.set s.writeOffset byte
            writeOffset := s.writeOffset + 1
            readOffset := s.readOffset + 1 }
      else removeFrameUnsynchronizationFrom passes (i + 1) s
    else some s

def removeFrameUnsynchronization (mData : List Byte) (mSize oldSize offset dataSize : Nat) :
    Option (List Byte × Nat × Nat) := do
  let s ← removeFrameUnsynchronizationFrom dataSize 0
    { mData, mSize, dataSize, readOffset := offset + 11, writeOffset := offset + 11 }
  let mData ←
    if s.readOffset ≤ oldSize then memmove s.mData s.writeOffset s.readOffset (oldSize - s.readOffset)
    else some s.mData
  some (mData, s.mSize, s.dataSize)

def stripIndicator (flags : BitVec 16) (mData : List Byte) (mSize offset dataSize : Nat) :
    Option (Option (List Byte × Nat × Nat)) :=
  if flags &&& 1 ≠ 0 then
    if mSize < 14 ∨ mSize - 14 < offset ∨ dataSize < 4 then some none
    else
      (memmove mData (offset + 10) (offset + 14) (mSize - offset - 14)).map fun mData =>
        some (mData, mSize - 4, dataSize - 4)
  else some (some (mData, mSize, dataSize))

def resynchronizeFrame (flags : BitVec 16) (mData : List Byte) (mSize oldSize offset dataSize : Nat) :
    Option (List Byte × Nat × Nat) :=
  if flags &&& 2 ≠ 0 ∧ dataSize ≥ 2 then
    removeFrameUnsynchronization mData mSize oldSize offset dataSize
  else some (mData, mSize, dataSize)

def storeHeader (iTunesHack : Bool) (prevFlags flags : BitVec 16) (mData : List Byte)
    (offset dataSize : Nat) : Option (List Byte) :=
  if flags ≠ prevFlags ∨ iTunesHack then do
    let mData ← Buffer.store mData (offset + 4) (syncsafe dataSize)
    Buffer.store mData (offset + 8) [(flags >>> 8).setWidth 8, flags.setWidth 8]
  else some mData

def frameSize (iTunesHack : Bool) (mData : List Byte) (offset : Nat) : Option (Option Nat) :=
  (Buffer.load mData (offset + 4) 4).map fun size =>
    if iTunesHack then some (Ebml.number size) else ParseSyncsafeInteger size

def removeUnsynchronizationAt (iTunesHack : Bool) (oldSize : Nat) (mData : List Byte)
    (mSize offset : Nat) : Option (Option (List Byte × Nat × Nat)) := do
  match ← frameSize iTunesHack mData offset with
  | none => some none
  | some dataSize =>
    if dataSize > mSize - 10 - offset then some none
    else
      let flagBytes ← Buffer.load mData (offset + 8) 2
      let prevFlags := BitVec.ofNat 16 (Ebml.number flagBytes)
      match ← stripIndicator prevFlags mData mSize offset dataSize with
      | none => some none
      | some (mData, mSize, dataSize) =>
        let flags := prevFlags &&& ~~~1
        let (mData, mSize, dataSize) ← resynchronizeFrame flags mData mSize oldSize offset dataSize
        let flags := flags &&& ~~~2
        let mData ← storeHeader iTunesHack prevFlags flags mData offset dataSize
        some (some (mData, mSize, offset + 10 + dataSize))

-- a pass that fails has not touched the members, and they stay as the passes before left them
def removeUnsynchronizationV2_4From (iTunesHack : Bool) (oldSize : Nat) :
    Nat → List Byte → Nat → Nat → Option (Except (List Byte × Nat) (List Byte × Nat))
  | 0, mData, mSize, _ => some (.ok (mData, mSize))
  | passes + 1, mData, mSize, offset =>
    if ¬(mSize ≥ 10 ∧ offset ≤ mSize - 10) then some (.ok (mData, mSize))
    else do
      let id ← Buffer.load mData offset 4
      if id = [0, 0, 0, 0] then some (.ok (mData, mSize))
      else
        match ← removeUnsynchronizationAt iTunesHack oldSize mData mSize offset with
        | none => some (.error (mData, mSize))
        | some (mData, mSize, offset) =>
          removeUnsynchronizationV2_4From iTunesHack oldSize passes mData mSize offset

/-- `mData` and `mSize` after the call, as an error when it returns false. -/
def removeUnsynchronizationV2_4 (iTunesHack : Bool) (mData : List Byte) (mSize : Nat) :
    Option (Except (List Byte × Nat) (List Byte × Nat)) := do
  let oldSize := mSize
  match ← removeUnsynchronizationV2_4From iTunesHack oldSize (oldSize + 1) mData mSize 0 with
  | .error members => some (.error members)
  | .ok (mData, mSize) =>
    let mData ← Buffer.store mData mSize (List.replicate (oldSize - mSize) 0)
    some (.ok (mData, mSize))

/-! ### Nothing is missed -/

theorem memmove_eq {mData : List Byte} {dst src n : Nat} (hsrc : src + n ≤ mData.length)
    (hdst : dst ≤ src) : memmove mData dst src n = some (Id3.memmove mData dst src n) := by
  rw [memmove, Buffer.load_eq hsrc, Option.bind_some, Buffer.store_eq]
  · rfl
  · rw [Buffer.length_slice hsrc]
    omega

/-- The bytes that are still to be read are there. -/
structure InBounds (i : Nat) (s : FrameLoop) : Prop where
  reading : s.readOffset + (s.dataSize - (i + 1)) ≤ s.mData.length
  writing : s.writeOffset ≤ s.readOffset

/-- What the loop leaves: the memory has its size, and nothing has been written ahead of the
reading. -/
structure Kept (s s' : FrameLoop) : Prop where
  length : s'.mData.length = s.mData.length
  mSize : s'.mSize ≤ s.mSize
  writing : s'.writeOffset ≤ s'.readOffset

theorem removeFrameUnsynchronizationFrom_eq (passes : Nat) {i : Nat} {s : FrameLoop}
    (h : InBounds i s) :
    removeFrameUnsynchronizationFrom passes i s =
        some (Id3.removeFrameUnsynchronizationFrom passes i s) ∧
      Kept s (Id3.removeFrameUnsynchronizationFrom passes i s) := by
  induction passes generalizing i s with
  | zero => exact ⟨rfl, rfl, Nat.le_refl _, h.writing⟩
  | succ passes ih =>
    -- the second half of a turn, after a zero has been skipped or not
    have hmove : ∀ s : FrameLoop, InBounds i s →
        (if i + 1 < s.dataSize then do
          let byte ← s.mData[s.readOffset]?
          let _old ← s.mData[s.writeOffset]?
          removeFrameUnsynchronizationFrom passes (i + 1)
            { s with
              mData := s.mData.set s.writeOffset byte
              writeOffset := s.writeOffset + 1
              readOffset := s.readOffset + 1 }
        else removeFrameUnsynchronizationFrom passes (i + 1) s) =
          some (Id3.removeFrameUnsynchronizationFrom passes (i + 1)
            (if i + 1 < s.dataSize then
              { s with
                mData := s.mData.set s.writeOffset (s.mData.getD s.readOffset 0)
                writeOffset := s.writeOffset + 1
                readOffset := s.readOffset + 1 }
            else s)) ∧
        Kept s (Id3.removeFrameUnsynchronizationFrom passes (i + 1)
          (if i + 1 < s.dataSize then
            { s with
              mData := s.mData.set s.writeOffset (s.mData.getD s.readOffset 0)
              writeOffset := s.writeOffset + 1
              readOffset := s.readOffset + 1 }
          else s)) := by
      rintro s ⟨hreading, hwriting⟩
      by_cases hmore : i + 1 < s.dataSize
      · rw [if_pos hmore, if_pos hmore, Buffer.getElem?_eq_getD 0 (by omega),
          Buffer.getElem?_eq_getD 0 (by omega)]
        have hnext : InBounds (i + 1) { s with
            mData := s.mData.set s.writeOffset (s.mData.getD s.readOffset 0)
            writeOffset := s.writeOffset + 1
            readOffset := s.readOffset + 1 } :=
          ⟨by rw [List.length_set]; dsimp only; omega, Nat.succ_le_succ hwriting⟩
        obtain ⟨heq, hlength, hmSize, hwriting'⟩ := ih hnext
        rw [List.length_set] at hlength
        exact ⟨heq, hlength, hmSize, hwriting'⟩
      · rw [if_neg hmore, if_neg hmore]
        exact ih ⟨by omega, hwriting⟩
    obtain ⟨hreading, hwriting⟩ := h
    rw [removeFrameUnsynchronizationFrom, Id3.removeFrameUnsynchronizationFrom]
    by_cases hmore : i + 1 < s.dataSize
    · rw [if_pos hmore, if_pos hmore, Buffer.getElem?_eq_getD 0 (by omega),
        Buffer.getElem?_eq_getD 0 (by omega)]
      dsimp only [Option.bind_eq_bind, Option.bind_some]
      by_cases hskip : s.mData.getD (s.readOffset - 1) 0 = 0xFF ∧ s.mData.getD s.readOffset 0 = 0
      · rw [if_pos hskip]
        obtain ⟨heq, hlength, hmSize, hwriting'⟩ := hmove { s with
          readOffset := s.readOffset + 1
          mSize := s.mSize - 1
          dataSize := s.dataSize - 1 } ⟨by dsimp only; omega, Nat.le_succ_of_le hwriting⟩
        exact ⟨heq, hlength, hmSize.trans (Nat.sub_le _ _), hwriting'⟩
      · rw [if_neg hskip]
        exact hmove s ⟨hreading, hwriting⟩
    · rw [if_neg hmore, if_neg hmore]
      exact ⟨rfl, rfl, Nat.le_refl _, hwriting⟩

theorem removeFrameUnsynchronization_eq {mData : List Byte} {mSize offset dataSize : Nat}
    (h : offset + 10 + dataSize ≤ mData.length) (hpos : 0 < dataSize) :
    removeFrameUnsynchronization mData mSize mData.length offset dataSize =
        some (Id3.removeFrameUnsynchronization mData mSize mData.length offset dataSize) ∧
      (Id3.removeFrameUnsynchronization mData mSize mData.length offset dataSize).1.length =
        mData.length ∧
      (Id3.removeFrameUnsynchronization mData mSize mData.length offset dataSize).2.1 ≤ mSize := by
  have hbounds : InBounds 0 ⟨mData, mSize, dataSize, offset + 11, offset + 11⟩ :=
    ⟨by dsimp only; omega, Nat.le_refl _⟩
  obtain ⟨hloop, hlength, hmSize, hwriting⟩ :=
    removeFrameUnsynchronizationFrom_eq dataSize hbounds
  rw [removeFrameUnsynchronization, Id3.removeFrameUnsynchronization, hloop]
  dsimp only [Option.bind_eq_bind, Option.bind_some]
  generalize Id3.removeFrameUnsynchronizationFrom dataSize 0 _ = s at hlength hmSize hwriting
  by_cases hread : s.readOffset ≤ mData.length
  · have hsrc : s.readOffset + (mData.length - s.readOffset) ≤ s.mData.length := by
      rw [hlength]
      dsimp only
      omega
    rw [if_pos hread, if_pos hread, memmove_eq hsrc hwriting]
    refine ⟨rfl, ?_, hmSize⟩
    rw [Id3.memmove, Ring.length_poke, hlength]
    rw [Buffer.length_slice hsrc]
    omega
  · rw [if_neg hread, if_neg hread]
    exact ⟨rfl, hlength, hmSize⟩

theorem resynchronizeFrame_eq (flags : BitVec 16) (mSize : Nat) {mData : List Byte}
    {offset dataSize : Nat} (h : offset + 10 + dataSize ≤ mData.length) :
    resynchronizeFrame flags mData mSize mData.length offset dataSize =
        some (Id3.resynchronizeFrame flags mData mSize mData.length offset dataSize) ∧
      (Id3.resynchronizeFrame flags mData mSize mData.length offset dataSize).1.length =
        mData.length ∧
      (Id3.resynchronizeFrame flags mData mSize mData.length offset dataSize).2.1 ≤ mSize := by
  rw [resynchronizeFrame, Id3.resynchronizeFrame]
  split
  next hunsync => exact removeFrameUnsynchronization_eq h (by omega)
  · exact ⟨rfl, rfl, Nat.le_refl _⟩

theorem stripIndicator_eq (flags : BitVec 16) {mData : List Byte} {mSize offset dataSize : Nat}
    (hdata : offset + 10 + dataSize ≤ mSize) (hsize : mSize ≤ mData.length) :
    stripIndicator flags mData mSize offset dataSize =
        some (Id3.stripIndicator flags mData mSize offset dataSize) ∧
      ∀ res ∈ Id3.stripIndicator flags mData mSize offset dataSize,
        res.1.length = mData.length ∧ res.2.1 ≤ mSize ∧ offset + 10 + res.2.2 ≤ mData.length := by
  rw [stripIndicator, Id3.stripIndicator]
  by_cases hindicator : flags &&& 1 ≠ 0
  · rw [if_pos hindicator, if_pos hindicator]
    by_cases hshort : mSize < 14 ∨ mSize - 14 < offset ∨ dataSize < 4
    · rw [if_pos hshort, if_pos hshort]
      exact ⟨rfl, fun _ hres => by cases hres⟩
    · have hsrc : offset + 14 + (mSize - offset - 14) ≤ mData.length := by omega
      rw [if_neg hshort, if_neg hshort, memmove_eq hsrc (by omega)]
      refine ⟨rfl, ?_⟩
      rintro _ ⟨⟩
      refine ⟨?_, Nat.sub_le _ _, by dsimp only; omega⟩
      rw [Id3.memmove, Ring.length_poke]
      rw [Buffer.length_slice hsrc]
      omega
  · rw [if_neg hindicator, if_neg hindicator]
    refine ⟨rfl, ?_⟩
    rintro _ ⟨⟩
    exact ⟨rfl, Nat.le_refl _, hdata.trans hsize⟩

theorem storeHeader_eq (iTunesHack : Bool) (prevFlags flags : BitVec 16) (dataSize : Nat)
    {mData : List Byte} {offset : Nat} (h : offset + 10 ≤ mData.length) :
    storeHeader iTunesHack prevFlags flags mData offset dataSize =
        some (Id3.storeHeader iTunesHack prevFlags flags mData offset dataSize) ∧
      (Id3.storeHeader iTunesHack prevFlags flags mData offset dataSize).length = mData.length := by
  rw [storeHeader, Id3.storeHeader]
  split
  · have hsize : offset + 4 + (syncsafe dataSize).length ≤ mData.length := by
      rw [length_syncsafe]
      omega
    have hstored := Ring.length_poke hsize
    have hflags : offset + 8 + [(flags >>> 8).setWidth 8, (flags.setWidth 8 : Byte)].length ≤
        (Ring.poke mData (offset + 4) (syncsafe dataSize)).length := by
      rw [hstored]
      exact h
    rw [Buffer.store_eq hsize, Option.bind_eq_bind, Option.bind_some, Buffer.store_eq hflags]
    exact ⟨rfl, (Ring.length_poke hflags).trans hstored⟩
  · exact ⟨rfl, rfl⟩

/-- One pass of the loop, for a header inside the tag. -/
theorem removeUnsynchronizationAt_eq (iTunesHack : Bool) {mData : List Byte} {mSize offset : Nat}
    (hheader : offset + 10 ≤ mSize) (hsize : mSize ≤ mData.length) :
    removeUnsynchronizationAt iTunesHack mData.length mData mSize offset =
        some (Id3.removeUnsynchronizationAt iTunesHack mData.length mData mSize offset) ∧
      ∀ res ∈ Id3.removeUnsynchronizationAt iTunesHack mData.length mData mSize offset,
        res.1.length = mData.length ∧ res.2.1 ≤ mSize := by
  have hframeSize : frameSize iTunesHack mData offset =
      some (Id3.frameSize iTunesHack mData offset) := by
    rw [frameSize, Buffer.load_eq (by omega)]
    rfl
  rw [removeUnsynchronizationAt, Id3.removeUnsynchronizationAt, hframeSize, Option.bind_eq_bind,
    Option.bind_some]
  cases Id3.frameSize iTunesHack mData offset with
  | none => exact ⟨rfl, fun _ hres => by cases hres⟩
  | some dataSize =>
    dsimp only
    by_cases hfits : dataSize > mSize - 10 - offset
    · rw [if_pos hfits, if_pos hfits]
      exact ⟨rfl, fun _ hres => by cases hres⟩
    have hflags : Buffer.load mData (offset + 8) 2 = some (Ring.slice mData (offset + 8) 2) :=
      Buffer.load_eq (by omega)
    have hdata : offset + 10 + dataSize ≤ mSize := by omega
    obtain ⟨hstrip, hkept⟩ := stripIndicator_eq (U16_AT mData (offset + 8)) hdata hsize
    rw [if_neg hfits, if_neg hfits, hflags, Option.bind_eq_bind, Option.bind_some, ← U16_AT, hstrip,
      Option.bind_eq_bind, Option.bind_some]
    cases hres : Id3.stripIndicator (U16_AT mData (offset + 8)) mData mSize offset dataSize with
    | none => exact ⟨rfl, fun _ hres => by cases hres⟩
    | some res =>
      obtain ⟨mData₁, mSize₁, dataSize₁⟩ := res
      obtain ⟨hlength, hless, hroom⟩ := hkept _ hres
      dsimp only at hlength hless hroom ⊢
      rw [← hlength] at hroom ⊢
      obtain ⟨hresync, hlength₂, hless₂⟩ := resynchronizeFrame_eq
        (U16_AT mData (offset + 8) &&& ~~~1) mSize₁ hroom
      rw [hresync]
      generalize Id3.resynchronizeFrame (U16_AT mData (offset + 8) &&& ~~~1) mData₁ mSize₁
        mData₁.length offset dataSize₁ = res at hlength₂ hless₂
      obtain ⟨mData₂, mSize₂, dataSize₂⟩ := res
      dsimp only [Option.bind_eq_bind, Option.bind_some] at hlength₂ hless₂ ⊢
      have hheader₂ : offset + 10 ≤ mData₂.length := by omega
      obtain ⟨hstored, hlength₃⟩ := storeHeader_eq iTunesHack (U16_AT mData (offset + 8))
        (U16_AT mData (offset + 8) &&& ~~~1 &&& ~~~2) dataSize₂ hheader₂
      rw [hstored]
      refine ⟨rfl, ?_⟩
      rintro _ ⟨⟩
      exact ⟨hlength₃.trans hlength₂, hless₂.trans hless⟩

/-- The members a call leaves, whatever it returns. -/
def members : Except (List Byte × Nat) (List Byte × Nat) → List Byte × Nat
  | .error members => members
  | .ok members => members

theorem removeUnsynchronizationV2_4From_eq (iTunesHack : Bool) {oldSize : Nat} (passes : Nat)
    {mData : List Byte} {mSize : Nat} (offset : Nat) (hold : mData.length = oldSize)
    (hsize : mSize ≤ oldSize) :
    ∃ res, removeUnsynchronizationV2_4From iTunesHack oldSize passes mData mSize offset =
        some res ∧
      res.toOption =
        Id3.removeUnsynchronizationV2_4From iTunesHack oldSize passes mData mSize offset ∧
      (members res).1.length = oldSize ∧ (members res).2 ≤ oldSize := by
  induction passes generalizing mData mSize offset with
  | zero => exact ⟨.ok (mData, mSize), rfl, rfl, hold, hsize⟩
  | succ passes ih =>
    rw [removeUnsynchronizationV2_4From, Id3.removeUnsynchronizationV2_4From]
    by_cases hend : ¬(mSize ≥ 10 ∧ offset ≤ mSize - 10)
    · rw [if_pos hend, if_pos hend]
      exact ⟨.ok (mData, mSize), rfl, rfl, hold, hsize⟩
    have hheader : offset + 10 ≤ mSize := by omega
    rw [if_neg hend, if_neg hend, Buffer.load_eq (by omega), Option.bind_eq_bind, Option.bind_some]
    by_cases hid : Ring.slice mData offset 4 = [0, 0, 0, 0]
    · rw [if_pos hid, if_pos hid]
      exact ⟨.ok (mData, mSize), rfl, rfl, hold, hsize⟩
    subst hold
    obtain ⟨hpass, hkept⟩ := removeUnsynchronizationAt_eq iTunesHack hheader hsize
    rw [if_neg hid, if_neg hid, hpass, Option.bind_eq_bind, Option.bind_some]
    cases hres : Id3.removeUnsynchronizationAt iTunesHack mData.length mData mSize offset with
    | none => exact ⟨.error (mData, mSize), rfl, rfl, rfl, hsize⟩
    | some res =>
      obtain ⟨hlength, hless⟩ := hkept res hres
      exact ih res.2.2 hlength (hless.trans hsize)

/-- The whole pass stays inside `mData`. -/
theorem removeUnsynchronizationV2_4_eq (iTunesHack : Bool) (mData : List Byte) :
    ∃ res, removeUnsynchronizationV2_4 iTunesHack mData mData.length = some res ∧
      res.toOption = Id3.removeUnsynchronizationV2_4 iTunesHack mData mData.length ∧
      (members res).1.length = mData.length ∧ (members res).2 ≤ mData.length := by
  obtain ⟨res, hloop, hsame, hlength, hless⟩ := removeUnsynchronizationV2_4From_eq iTunesHack
    (mData.length + 1) 0 rfl (Nat.le_refl mData.length)
  rw [removeUnsynchronizationV2_4, Id3.removeUnsynchronizationV2_4]
  dsimp only
  rw [hloop, Option.bind_eq_bind, Option.bind_some, ← hsame]
  match res, hlength, hless with
  | .error members, hlength, hless => exact ⟨.error members, rfl, rfl, hlength, hless⟩
  | .ok (mData', mSize'), hlength, hless =>
    have hzeros : mSize' + (List.replicate (mData.length - mSize') (0 : Byte)).length ≤
        mData'.length := by
      rw [List.length_replicate, show mData'.length = mData.length from hlength]
      exact Nat.le_of_eq (Nat.add_sub_of_le hless)
    dsimp only
    rw [Buffer.store_eq hzeros]
    exact ⟨_, rfl, rfl, (Ring.length_poke hzeros).trans hlength, hless⟩

open RawFrame in
/-- For any bytes the pass touches nothing outside them and never grows the tag. When it succeeds,
the frames up to a zero id or to less than a header are rewritten one by one, the rest has only been
moved, and zeros follow. In a tag that `parseV2` accepts the size of a changed frame reads back. -/
theorem removeUnsynchronizationV2_4_rewrites (iTunesHack : Bool) (mData : List Byte) :
    ∃ res, removeUnsynchronizationV2_4 iTunesHack mData mData.length = some res ∧
      res.toOption = Id3.removeUnsynchronizationV2_4 iTunesHack mData mData.length ∧
      (members res).1.length = mData.length ∧ (members res).2 ≤ mData.length ∧
      ∀ mData' mSize', res = .ok (mData', mSize') →
        ∃ (frames : List RawFrame) (tail : List Byte), (∀ f ∈ frames, f.Legal iTunesHack) ∧
          mData = join frames ++ tail ∧ AtEnd tail ∧
          mSize' = (join (frames.map (rewrite iTunesHack)) ++ tail).length ∧
          mData' = join (frames.map (rewrite iTunesHack)) ++
            (tail ++ List.replicate (mData.length - mSize') 0) ∧
          (mData.length ≤ kMaxMetadataSize → ∀ f ∈ frames, f.Changed iTunesHack →
            ParseSyncsafeInteger (f.rewrite iTunesHack).size =
              some (f.rewrite iTunesHack).data.length) := by
  obtain ⟨res, hcall, hsame, hlength, hless⟩ := removeUnsynchronizationV2_4_eq iTunesHack mData
  refine ⟨res, hcall, hsame, hlength, hless, ?_⟩
  rintro mData' mSize' rfl
  obtain ⟨frames, tail, hlegal, hdata, htail, hmSize, -, hmData⟩ :=
    removeUnsynchronizationV2_4_frames hsame.symm
  refine ⟨frames, tail, hlegal, hdata, htail, hmSize, hmData, ?_⟩
  intro hmax f hf hchanged
  have hsize : (f.rewrite iTunesHack).size = syncsafe (f.rewrite iTunesHack).data.length :=
    if_pos hchanged
  have hmaxSize : kMaxMetadataSize = 3145728 := rfl
  have hsmall : (f.rewrite iTunesHack).data.length < 2 ^ 28 := by
    have hbytes := length_rewrite_le iTunesHack f
    have hjoin := length_bytes_le_join hf
    have hwhole := congrArg List.length hdata
    rw [length_bytes, length_bytes] at hbytes
    rw [length_bytes] at hjoin
    rw [List.length_append] at hwhole
    omega
  rw [hsize, parse_syncsafe hsmall]

-- of the two zeros behind `0xFF` the second one stays
example : Checked.removeUnsynchronizationV2_4 false
    [0x54, 0x49, 0x54, 0x32, 0, 0, 0, 7, 0, 3, 0, 0, 0, 5, 0xFF, 0, 0, 0xAA, 0xBB] 19 =
      some (.ok ([0x54, 0x49, 0x54, 0x32, 0, 0, 0, 2, 0, 0, 0xFF, 0, 0xAA, 0xBB, 0, 0, 0, 0, 0],
        14)) := rfl

end Checked

end MediaFramework.Id3
