import MediaFramework.Id3.Accesses
import MediaFramework.Id3.Iteration

/-!
# The arithmetic of an iteration

An iterator again, with `none` for an access that is not to `mData`, for a sum that is more than a
`size_t` holds and for a loop that does not end. None of these happens in a tag that was parsed.
-/

namespace MediaFramework.Id3

open Ebml (number)

/-! ### What is parsed -/

/-- What the constructor has checked. -/
structure ID3.Parsed (id3 : ID3) : Prop where
  inside : id3.mSize ≤ id3.mData.length
  small : id3.mSize ≤ kMaxMetadataSize
  first : id3.mFirstFrameOffset ≤ id3.mSize

theorem length_removeUnsynchronizationFrom (passes readOffset writeOffset : Nat)
    (mData : List Byte) :
    (removeUnsynchronizationFrom passes readOffset writeOffset mData).1.length = mData.length := by
  induction passes generalizing readOffset writeOffset mData with
  | zero => rfl
  | succ passes ih =>
    rw [removeUnsynchronizationFrom]
    split
    · exact ih _ _ _
    · rw [ih, List.length_set]

theorem removeUnsynchronizationV2_4_bounds {iTunesHack : Bool} {mData : List Byte}
    {res : List Byte × Nat}
    (h : removeUnsynchronizationV2_4 iTunesHack mData mData.length = some res) :
    res.1.length = mData.length ∧ res.2 ≤ mData.length := by
  obtain ⟨called, -, hsame, hlength, hless⟩ :=
    Checked.removeUnsynchronizationV2_4_eq iTunesHack mData
  rw [h] at hsame
  cases called with
  | error members => cases hsame
  | ok members =>
    obtain rfl : members = res := Option.some.inj hsame
    exact ⟨hlength, hless⟩

theorem resynchronize_bounds {v : Version} {flags : Byte} {mData : List Byte}
    {res : List Byte × Nat} (h : resynchronize v flags mData mData.length = some res) :
    res.1.length = mData.length ∧ res.2 ≤ mData.length := by
  rw [resynchronize] at h
  split_ifs at h
  · obtain hplain | ⟨-, hhack⟩ := Option.or_eq_some_iff.mp h
    · exact removeUnsynchronizationV2_4_bounds hplain
    · exact removeUnsynchronizationV2_4_bounds hhack
  · obtain rfl := Option.some.inj h
    refine ⟨length_removeUnsynchronizationFrom _ _ _ _, ?_⟩
    rw [removeUnsynchronization]
    dsimp only
    split <;> omega
  · obtain rfl := Option.some.inj h
    exact ⟨rfl, Nat.le_refl _⟩

theorem parseExtendedHeader_bounds {v : Version} {flags : Byte} {mData : List Byte} {mSize : Nat}
    {res : Nat × Nat} (h : parseExtendedHeader v flags mData mSize = some res) :
    res.1 ≤ res.2 ∧ res.2 ≤ mSize := by
  rw [parseExtendedHeader] at h
  split_ifs at h
  · rw [parseExtendedHeaderV2_3] at h
    dsimp only at h
    split_ifs at h <;> cases h <;> dsimp only <;> omega
  · obtain ⟨ext_size, hparse, rfl⟩ := Option.map_eq_some_iff.mp h
    rw [parseExtendedHeaderV2_4] at hparse
    split_ifs at hparse
    obtain ⟨size, -, hchecked⟩ := Option.bind_eq_some_iff.mp hparse
    split_ifs at hchecked
    cases hchecked
    dsimp only
    omega
  · cases h
    exact ⟨Nat.zero_le _, Nat.le_refl _⟩

theorem length_readAt {source data : List Byte} {offset size : Nat}
    (h : readAt source offset size = some data) : data.length = size := by
  obtain ⟨hwhole, hdata⟩ := Option.ite_none_right_eq_some.mp h
  exact Option.some.inj hdata ▸ hwhole

theorem parseV2_parsed {source : List Byte} {offset : Nat} {id3 : ID3}
    (h : parseV2 source offset = some id3) : id3.Parsed := by
  obtain ⟨header, -, h⟩ := Option.bind_eq_some_iff.mp h
  split_ifs at h
  obtain ⟨v, -, h⟩ := Option.bind_eq_some_iff.mp h
  obtain ⟨size, -, h⟩ := Option.bind_eq_some_iff.mp h
  split_ifs at h
  obtain ⟨mData, hread, h⟩ := Option.bind_eq_some_iff.mp h
  obtain ⟨⟨mData', mSize⟩, hresynchronize, h⟩ := Option.bind_eq_some_iff.mp h
  obtain ⟨⟨mFirstFrameOffset, mSize'⟩, hextended, h⟩ := Option.bind_eq_some_iff.mp h
  obtain rfl := Option.some.inj h
  have hlength := length_readAt hread
  rw [← hlength] at hresynchronize
  obtain ⟨hsame, hless⟩ := resynchronize_bounds hresynchronize
  obtain ⟨hfirst, hextendedLess⟩ := parseExtendedHeader_bounds hextended
  dsimp only at hsame hless hfirst hextendedLess
  exact ⟨by dsimp only; omega, by dsimp only; omega, hfirst⟩

namespace Checked

/-! ### The functions -/

variable (sizeMax : Nat) (mParent : ID3)

def add (a b : Nat) : Option Nat := if a + b ≤ sizeMax then some (a + b) else none

def lookV2_2 (mOffset : Nat) : Option Found := do
  let header ← add sizeMax mOffset 6
  if header > mParent.mSize then some .nothing
  else
    let id ← Buffer.load mParent.mData mOffset 3
    if id = [0, 0, 0] then some .nothing
    else
      let size ← Buffer.load mParent.mData (mOffset + 3) 3
      let mFrameSize := number size
      if mFrameSize = 0 then some .nothing
      else
        let mFrameSize ← add sizeMax mFrameSize 6
        if sizeMax - mOffset ≤ mFrameSize then some .nothing
        else
          let last ← add sizeMax mOffset mFrameSize
          if last > mParent.mSize then some .nothing
          else some (.frame mFrameSize)

def lookV2_3 (mOffset : Nat) : Option Found := do
  let header ← add sizeMax mOffset 10
  if header > mParent.mSize then some .nothing
  else
    let id ← Buffer.load mParent.mData mOffset 4
    if id = [0, 0, 0, 0] then some .nothing
    else
      let size ← Buffer.load mParent.mData (mOffset + 4) 4
      match if mParent.mVersion = .ID3_V2_4 then ParseSyncsafeInteger size else some (number size) with
      | none => some .nothing
      | some baseSize =>
        if baseSize = 0 then some .nothing
        else if sizeMax - 10 ≤ baseSize then some .nothing
        else
          let mFrameSize ← add sizeMax 10 baseSize
          if sizeMax - mOffset ≤ mFrameSize then some .nothing
          else
            let last ← add sizeMax mOffset mFrameSize
            if last > mParent.mSize then some .nothing
            else
              let flagBytes ← Buffer.load mParent.mData (mOffset + 8) 2
              let flags := BitVec.ofNat 16 (number flagBytes)
              if (mParent.mVersion = .ID3_V2_4 ∧ flags &&& 0x000C ≠ 0) ∨
                  (mParent.mVersion = .ID3_V2_3 ∧ flags &&& 0x00C0 ≠ 0) then
                some (.unsupported mFrameSize)
              else some (.frame mFrameSize)

def look (mOffset : Nat) : Option Found :=
  if mParent.mVersion = .ID3_V2_2 then lookV2_2 sizeMax mParent mOffset
  else lookV2_3 sizeMax mParent mOffset

def matchesId (mID : Option (List Byte)) (mOffset : Nat) : Option Bool :=
  match mID with
  | none => some true
  | some mID =>
    (Buffer.load mParent.mData mOffset mParent.idLength).map fun id => id.takeWhile (· ≠ 0) = mID

def findFrameFrom (mID : Option (List Byte)) : Nat → Nat → Option Iterator
  | 0, _ => none
  | passes + 1, mOffset => do
    match ← look sizeMax mParent mOffset with
    | .nothing => some ⟨mOffset, none, 0⟩
    | .unsupported mFrameSize => findFrameFrom mID passes (← add sizeMax mOffset mFrameSize)
    | .frame mFrameSize =>
      if ← matchesId mParent mID mOffset then
        some ⟨mOffset, some (mOffset + mParent.getHeaderLength), mFrameSize⟩
      else findFrameFrom mID passes (← add sizeMax mOffset mFrameSize)

def findFrame (mID : Option (List Byte)) (mOffset : Nat) : Option Iterator :=
  findFrameFrom sizeMax mParent mID (mParent.mSize + 1) mOffset

def next (mID : Option (List Byte)) (it : Iterator) : Option Iterator :=
  match it.mFrameData with
  | none => some it
  | some _ => do findFrame sizeMax mParent mID (← add sizeMax it.mOffset it.mFrameSize)

/-- The frames an iterator stands on until it is done. -/
def visitedFrom (mID : Option (List Byte)) : Nat → Iterator → Option (List Iterator)
  | 0, _ => none
  | calls + 1, it =>
    match it.mFrameData with
    | none => some []
    | some _ => do return it :: (← visitedFrom mID calls (← next sizeMax mParent mID it))

def visited (mID : Option (List Byte)) : Option (List Iterator) := do
  visitedFrom sizeMax mParent mID (mParent.mSize + 1)
    (← findFrame sizeMax mParent mID mParent.mFirstFrameOffset)

/-! ### Nothing is missed -/

variable {sizeMax : Nat} {id3 : ID3} {mOffset : Nat}

theorem add_eq {a b : Nat} (h : a + b ≤ sizeMax) : add sizeMax a b = some (a + b) := if_pos h

/-- A `size_t` has at least 32 bits. -/
theorem look_eq (hmax : 2 ^ 32 - 1 ≤ sizeMax) (hparsed : id3.Parsed) (h : mOffset ≤ id3.mSize) :
    look sizeMax id3 mOffset = some (id3.look mOffset) := by
  obtain ⟨hinside, hsmall, -⟩ := hparsed
  have hmaxSize : kMaxMetadataSize = 3145728 := rfl
  have hmaxValue : SIZE_MAX = 18446744073709551615 := rfl
  rw [look, ID3.look]
  by_cases hversion : id3.mVersion = .ID3_V2_2
  · rw [if_pos hversion, if_pos hversion, lookV2_2, ID3.lookV2_2]
    simp only [Option.bind_eq_bind]
    rw [add_eq (by omega), Option.bind_some]
    by_cases hheader : mOffset + 6 > id3.mSize
    · rw [if_pos hheader, if_pos hheader]
    rw [if_neg hheader, if_neg hheader, Buffer.load_eq (by omega), Option.bind_some]
    by_cases hid : Ring.slice id3.mData mOffset 3 = [0, 0, 0]
    · rw [if_pos hid, if_pos hid]
    have hslice : (Ring.slice id3.mData (mOffset + 3) 3).length = 3 :=
      Buffer.length_slice (by omega)
    have hnumber := Ebml.number_lt (Ring.slice id3.mData (mOffset + 3) 3)
    rw [hslice] at hnumber
    rw [if_neg hid, if_neg hid, Buffer.load_eq (by omega), Option.bind_some]
    generalize number (Ring.slice id3.mData (mOffset + 3) 3) = size at hnumber
    by_cases hzero : size = 0
    · rw [if_pos hzero, if_pos hzero]
    rw [if_neg hzero, if_neg hzero, add_eq (by omega), Option.bind_some,
      if_neg (by omega), if_neg (by omega), add_eq (by omega), Option.bind_some]
    split <;> rfl
  · rw [if_neg hversion, if_neg hversion, lookV2_3, ID3.lookV2_3]
    simp only [Option.bind_eq_bind]
    rw [add_eq (by omega), Option.bind_some]
    by_cases hheader : mOffset + 10 > id3.mSize
    · rw [if_pos hheader, if_pos hheader]
    rw [if_neg hheader, if_neg hheader, Buffer.load_eq (by omega), Option.bind_some]
    by_cases hid : Ring.slice id3.mData mOffset 4 = [0, 0, 0, 0]
    · rw [if_pos hid, if_pos hid]
    rw [if_neg hid, if_neg hid, Buffer.load_eq (by omega), Option.bind_some,
      U32_AT]
    generalize (if id3.mVersion = .ID3_V2_4 then
      ParseSyncsafeInteger (Ring.slice id3.mData (mOffset + 4) 4)
      else some (number (Ring.slice id3.mData (mOffset + 4) 4))) = baseSize?
    cases baseSize? with
    | none => rfl
    | some baseSize =>
      dsimp only
      by_cases hzero : baseSize = 0
      · rw [if_pos hzero, if_pos hzero]
      rw [if_neg hzero, if_neg hzero]
      -- the guards differ between widths, and what the narrow one refuses does not fit anyway
      by_cases hwide : sizeMax - 10 ≤ baseSize
      · rw [if_pos hwide]
        split_ifs <;> first | rfl | omega
      rw [if_neg hwide, add_eq (by omega), Option.bind_some]
      by_cases hfits : mOffset + (10 + baseSize) > id3.mSize
      · by_cases hguard : sizeMax - mOffset ≤ 10 + baseSize
        · rw [if_pos hguard]
          split_ifs <;> rfl
        · rw [if_neg hguard, add_eq (by omega), Option.bind_some, if_pos hfits]
          split_ifs <;> rfl
      · rw [if_neg (by omega), add_eq (by omega), Option.bind_some,
          if_neg hfits, if_neg (by omega), if_neg (by omega), if_neg hfits,
          Buffer.load_eq (by omega), Option.bind_some, U16_AT]
        split <;> rfl

theorem matchesId_eq (mID : Option (List Byte)) (h : mOffset + id3.idLength ≤ id3.mData.length) :
    matchesId id3 mID mOffset = some (id3.matchesId mID mOffset) := by
  cases mID with
  | none => rfl
  | some mID =>
    rw [matchesId, Buffer.load_eq h]
    rfl

/-- An iterator that is not done stands on a frame with some data that ends in the tag. -/
structure Stands (id3 : ID3) (it : Iterator) : Prop where
  mFrameData : it.mFrameData = some (it.mOffset + id3.getHeaderLength)
  data : id3.getHeaderLength < it.mFrameSize
  inside : it.mOffset + it.mFrameSize ≤ id3.mSize

theorem look_frame_header {mFrameSize : Nat} (h : id3.look mOffset = .frame mFrameSize) :
    id3.getHeaderLength < mFrameSize := by
  rw [ID3.look] at h
  rw [ID3.getHeaderLength]
  by_cases hversion : id3.mVersion = .ID3_V2_2
  · rw [if_pos hversion, ID3.lookV2_2] at h
    rw [if_pos hversion]
    dsimp only at h
    split_ifs at h
    cases h
    omega
  · rw [if_neg hversion, ID3.lookV2_3] at h
    rw [if_neg hversion]
    dsimp only at h
    split at h
    · cases h
    split at h
    · cases h
    split at h
    · cases h
    · split_ifs at h
      cases h
      omega

theorem idLength_le_headerLength (id3 : ID3) : id3.idLength ≤ id3.getHeaderLength := by
  rw [ID3.idLength, ID3.getHeaderLength]
  split <;> omega

variable (hmax : 2 ^ 32 - 1 ≤ sizeMax) (hparsed : id3.Parsed) (mID : Option (List Byte))
include hmax hparsed

/-- The loop ends, and on a frame that is not before it began. -/
theorem findFrameFrom_eq {passes : Nat} (h : mOffset ≤ id3.mSize)
    (hpasses : id3.mSize < mOffset + passes) :
    findFrameFrom sizeMax id3 mID passes mOffset = some (id3.findFrameFrom mID passes mOffset) ∧
      mOffset ≤ (id3.findFrameFrom mID passes mOffset).mOffset ∧
      (id3.findFrameFrom mID passes mOffset).mOffset ≤ id3.mSize ∧
      ((id3.findFrameFrom mID passes mOffset).mFrameData = none ∨
        Stands id3 (id3.findFrameFrom mID passes mOffset)) := by
  have hsmall := hparsed.small
  have hmaxSize : kMaxMetadataSize = 3145728 := rfl
  induction passes generalizing mOffset with
  | zero => omega
  | succ passes ih =>
    rw [findFrameFrom, ID3.findFrameFrom, look_eq hmax hparsed h, Option.bind_eq_bind,
      Option.bind_some]
    cases hlook : id3.look mOffset with
    | nothing => exact ⟨rfl, Nat.le_refl _, h, .inl rfl⟩
    | unsupported mFrameSize =>
      obtain ⟨hpos, hfits⟩ := look_bounds (.inr hlook)
      obtain ⟨heq, hle, hrest⟩ := ih hfits (by omega)
      dsimp only
      rw [add_eq (by omega), Option.bind_eq_bind, Option.bind_some]
      exact ⟨heq, Nat.le_of_add_right_le hle, hrest⟩
    | frame mFrameSize =>
      obtain ⟨hpos, hfits⟩ := look_bounds (.inl hlook)
      have hheader := look_frame_header hlook
      have hid : mOffset + id3.idLength ≤ id3.mData.length := by
        have hlength := idLength_le_headerLength id3
        have hinside := hparsed.inside
        omega
      dsimp only
      rw [matchesId_eq mID hid, Option.bind_eq_bind, Option.bind_some]
      by_cases hmatch : id3.matchesId mID mOffset = true
      · rw [if_pos hmatch, if_pos hmatch]
        exact ⟨rfl, Nat.le_refl _, h, .inr ⟨rfl, hheader, hfits⟩⟩
      · obtain ⟨heq, hle, hrest⟩ := ih hfits (by omega)
        rw [if_neg hmatch, if_neg hmatch, add_eq (by omega), Option.bind_eq_bind, Option.bind_some]
        exact ⟨heq, Nat.le_of_add_right_le hle, hrest⟩

theorem next_eq {it : Iterator} (h : Stands id3 it) :
    next sizeMax id3 mID it = some (id3.next mID it) ∧
      it.mOffset + it.mFrameSize ≤ (id3.next mID it).mOffset ∧
      (id3.next mID it).mOffset ≤ id3.mSize ∧
      ((id3.next mID it).mFrameData = none ∨ Stands id3 (id3.next mID it)) := by
  have hsmall := hparsed.small
  have hinside := h.inside
  have hmaxSize : kMaxMetadataSize = 3145728 := rfl
  rw [next, ID3.next, h.mFrameData]
  dsimp only
  rw [add_eq (by omega), Option.bind_eq_bind, Option.bind_some]
  exact findFrameFrom_eq hmax hparsed mID h.inside (by omega)

/-- An iterator is done in the end, and stands on one frame behind the other. -/
theorem visitedFrom_spec {calls : Nat} {it : Iterator} (hit : it.mFrameData = none ∨ Stands id3 it)
    (hle : it.mOffset ≤ id3.mSize) (hcalls : id3.mSize < it.mOffset + calls) :
    ∃ its, visitedFrom sizeMax id3 mID calls it = some its ∧
      (∀ x ∈ its, it.mOffset ≤ x.mOffset ∧ Stands id3 x) ∧
      its.Pairwise fun x y => x.mOffset + x.mFrameSize ≤ y.mOffset := by
  induction calls generalizing it with
  | zero => omega
  | succ calls ih =>
    rw [visitedFrom]
    obtain hdone | hstands := hit
    · rw [hdone]
      exact ⟨[], rfl, nofun, .nil⟩
    · obtain ⟨hnext, hbehind, hnextLe, hnextStands⟩ := next_eq hmax hparsed mID hstands
      have hdata := hstands.data
      obtain ⟨its, hvisited, hall, hpairwise⟩ := ih hnextStands hnextLe (by omega)
      rw [hstands.mFrameData, hnext]
      dsimp only [Option.bind_eq_bind, Option.bind_some]
      rw [hvisited]
      refine ⟨it :: its, rfl, ?_, ?_⟩
      · rw [List.forall_mem_cons]
        refine ⟨⟨Nat.le_refl _, hstands⟩, ?_⟩
        intro x hx
        obtain ⟨hxle, hxstands⟩ := hall x hx
        exact ⟨by omega, hxstands⟩
      · refine List.pairwise_cons.mpr ⟨?_, hpairwise⟩
        intro x hx
        exact hbehind.trans (hall x hx).1

theorem visited_spec :
    ∃ its, visited sizeMax id3 mID = some its ∧
      (∀ x ∈ its, id3.mFirstFrameOffset ≤ x.mOffset ∧ Stands id3 x) ∧
      its.Pairwise fun x y => x.mOffset + x.mFrameSize ≤ y.mOffset := by
  have henough : ∀ mOffset, id3.mSize < mOffset + (id3.mSize + 1) := by
    intro mOffset
    omega
  obtain ⟨hfind, hle, hless, hstands⟩ :=
    findFrameFrom_eq hmax hparsed mID hparsed.first (henough _)
  obtain ⟨its, hvisited, hall, hpairwise⟩ :=
    visitedFrom_spec hmax hparsed mID hstands hless (henough _)
  refine ⟨its, ?_, ?_, hpairwise⟩
  · rw [visited, findFrame, hfind]
    exact hvisited
  · intro x hx
    obtain ⟨hxle, hxstands⟩ := hall x hx
    exact ⟨hle.trans hxle, hxstands⟩

end Checked

end MediaFramework.Id3
