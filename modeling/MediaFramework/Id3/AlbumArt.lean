import MediaFramework.Id3.CheckedIteration

/-!
# Album art

The picture of the first frame of the kind. An unterminated text in front of it has a size that is
more than there is, which is what the bounds tests wait for.
-/

namespace MediaFramework.Id3

namespace Checked

/-! ### Strings -/

section

variable (sizeMax : Nat) (mData : List Byte)

def sub (a b : Nat) : Option Nat := if b ≤ a then some (a - b) else none

def strnlen : Nat → Nat → Option Nat
  | _, 0 => some 0
  | start, maxlen + 1 => do
    let byte ← mData[start]?
    if byte = 0 then some 0
    else return (← strnlen (start + 1) maxlen) + 1

/-- The loop of `StringSize` over 16 bits at a time. -/
def wideSizeFrom (start limit : Nat) : Nat → Nat → Option Nat
  | 0, _ => none
  | passes + 1, n =>
    if n + 1 < limit then do
      let byte ← mData[start + n]?
      let next ← mData[start + n + 1]?
      if byte ≠ 0 ∨ next ≠ 0 then wideSizeFrom start limit passes (← add sizeMax n 2)
      else add sizeMax n 2
    else add sizeMax n 2

/-- The terminator counts. -/
def StringSize (start limit : Nat) (encoding : Byte) : Option Nat :=
  if encoding = 0 ∨ encoding = 3 then do add sizeMax (← strnlen mData start limit) 1
  else wideSizeFrom sizeMax mData start limit (limit + 1) 0

/-- What is copied of a string that ends at a zero. -/
def cString (start : Nat) : Option (List Byte) :=
  if 0 ∈ mData.drop start then some ((mData.drop start).takeWhile (· ≠ 0)) else none

end

/-! ### Pictures -/

/-- The returned pointer, as an index of `mData`, and what is stored through the arguments. -/
structure AlbumArt where
  data : Nat
  length : Nat
  mime : List Byte

def ascii (text : String) : List Byte := text.toList.map fun c => BitVec.ofNat 8 c.toNat

section

variable (sizeMax : Nat) (mParent : ID3)

def getData (it : Iterator) : Option (Nat × Nat) :=
  match it.mFrameData with
  | none => none
  | some mFrameData =>
    if it.mFrameSize < mParent.getHeaderLength then none
    else some (mFrameData, it.mFrameSize - mParent.getHeaderLength)

def albumArtV2_3 (data size : Nat) : Option (Option AlbumArt) := do
  let encoding ← mParent.mData[data]?
  let limit ← sub size 1
  -- the type of the picture is text of 8 bits in any encoding
  let mimeLen ← StringSize sizeMax mParent.mData (data + 1) limit 0
  if mimeLen > limit then some none
  else
    let mime ← cString mParent.mData (data + 1)
    let consumed ← add sizeMax (← add sizeMax 1 mimeLen) 1
    if consumed ≥ size then some none
    else
      let descLen ← StringSize sizeMax mParent.mData (data + consumed) (← sub size consumed) encoding
      let consumed ← add sizeMax consumed descLen
      if consumed ≥ size then some none
      else
        let length ← sub size consumed
        some (some { data := data + consumed, length, mime })

def mimeV2_2 (format : List Byte) : Option (List Byte) :=
  if format = ascii "PNG" then some (ascii "image/png")
  else if format = ascii "JPG" then some (ascii "image/jpeg")
  else if format = ascii "-->" then some (ascii "text/plain")
  else none

def albumArtV2_2 (data size : Nat) : Option (Option AlbumArt) := do
  let encoding ← mParent.mData[data]?
  if size ≤ 5 then some none
  else
    match mimeV2_2 (← Buffer.load mParent.mData (data + 1) 3) with
    | none => some none
    | some mime =>
      let limit ← sub size 5
      let descLen ← StringSize sizeMax mParent.mData (data + 5) limit encoding
      if descLen > limit then some none
      else
        let length ← sub limit descLen
        some (some { data := data + 5 + descLen, length, mime })

def albumArtID : List Byte :=
  if mParent.mVersion = .ID3_V2_3 ∨ mParent.mVersion = .ID3_V2_4 then ascii "APIC" else ascii "PIC"

/-- Every branch of the loop returns. -/
def getAlbumArt : Option (Option AlbumArt) := do
  let it ← findFrame sizeMax mParent (some (albumArtID mParent)) mParent.mFirstFrameOffset
  if it.mFrameData = none then some none
  else
    match getData mParent it with
    | none => some none
    | some (data, size) =>
      if mParent.mVersion = .ID3_V2_3 ∨ mParent.mVersion = .ID3_V2_4 then
        albumArtV2_3 sizeMax mParent data size
      else albumArtV2_2 sizeMax mParent data size

end

/-! ### Ranges -/

variable {sizeMax : Nat} {mData : List Byte} {start limit : Nat}

theorem sub_eq {a b : Nat} (h : b ≤ a) : sub a b = some (a - b) := if_pos h

theorem strnlen_spec (h : start + limit ≤ mData.length) :
    ∃ n ≤ limit, strnlen mData start limit = some n ∧
      (n < limit → 0 ∈ mData.drop start) := by
  induction limit generalizing start with
  | zero => exact ⟨0, Nat.le_refl _, by rw [strnlen], nofun⟩
  | succ limit ih =>
    have hstart : start < mData.length := by omega
    rw [strnlen, List.getElem?_eq_getElem hstart, Option.bind_eq_bind, Option.bind_some,
      List.drop_eq_getElem_cons hstart]
    by_cases hend : mData[start] = 0
    · rw [if_pos hend, hend]
      exact ⟨0, Nat.zero_le _, rfl, fun _ => List.mem_cons_self⟩
    · have hrest : start + 1 + limit ≤ mData.length := by omega
      obtain ⟨n, hle, hn, hzero⟩ := ih hrest
      rw [if_neg hend, hn]
      exact ⟨n + 1, Nat.succ_le_succ hle, rfl,
        fun hless => List.mem_cons_of_mem _ (hzero (Nat.lt_of_succ_lt_succ hless))⟩

theorem wideSizeFrom_spec {passes n : Nat} (h : start + limit ≤ mData.length)
    (hmax : limit + 2 ≤ sizeMax) (hn : n ≤ limit) (hpasses : limit < n + passes) :
    ∃ size ≤ limit + 2, wideSizeFrom sizeMax mData start limit passes n = some size := by
  induction passes generalizing n with
  | zero => omega
  | succ passes ih =>
    have hadd : add sizeMax n 2 = some (n + 2) := add_eq (by omega)
    rw [wideSizeFrom]
    by_cases hmore : n + 1 < limit
    · rw [if_pos hmore, List.getElem?_eq_getElem (by omega), List.getElem?_eq_getElem (by omega),
        hadd]
      dsimp only [Option.bind_eq_bind, Option.bind_some]
      split
      · exact ih (by omega) (by omega)
      · exact ⟨n + 2, by omega, rfl⟩
    · rw [if_neg hmore, hadd]
      exact ⟨n + 2, by omega, rfl⟩

theorem StringSize_spec (encoding : Byte) (h : start + limit ≤ mData.length)
    (hmax : limit + 2 ≤ sizeMax) :
    ∃ size ≤ limit + 2, StringSize sizeMax mData start limit encoding = some size ∧
      (encoding = 0 → size ≤ limit → 0 ∈ mData.drop start) := by
  rw [StringSize]
  by_cases hnarrow : encoding = 0 ∨ encoding = 3
  · obtain ⟨n, hle, hn, hzero⟩ := strnlen_spec h
    rw [if_pos hnarrow, hn, Option.bind_eq_bind, Option.bind_some, add_eq (by omega)]
    exact ⟨n + 1, by omega, rfl, fun _ hsize => hzero hsize⟩
  · obtain ⟨size, hle, hsize⟩ := wideSizeFrom_spec h hmax (Nat.zero_le _)
      (show limit < 0 + (limit + 1) by omega)
    rw [if_neg hnarrow]
    exact ⟨size, hle, hsize, fun hzero => absurd (.inl hzero) hnarrow⟩

/-- The picture is a range of some data. -/
def AlbumArt.Inside (art : AlbumArt) (data size : Nat) : Prop :=
  data ≤ art.data ∧ art.data + art.length ≤ data + size

variable {id3 : ID3} {data size : Nat}

theorem albumArtV2_3_inside (hmax : 2 ^ 32 - 1 ≤ sizeMax) (hdata : data + size ≤ id3.mData.length)
    (hpos : 0 < size) (hsmall : size ≤ kMaxMetadataSize) :
    ∃ res, albumArtV2_3 sizeMax id3 data size = some res ∧ ∀ art ∈ res, art.Inside data size := by
  have hmaxSize : kMaxMetadataSize = 3145728 := rfl
  obtain ⟨mimeLen, hmimeLe, hmime, hzero⟩ := StringSize_spec 0
    (show data + 1 + (size - 1) ≤ id3.mData.length by omega)
    (show size - 1 + 2 ≤ sizeMax by omega)
  rw [albumArtV2_3, List.getElem?_eq_getElem (show data < id3.mData.length by omega), sub_eq hpos]
  simp only [Option.bind_eq_bind, Option.bind_some]
  rw [hmime, Option.bind_some]
  by_cases hmimeLong : mimeLen > size - 1
  · rw [if_pos hmimeLong]
    exact ⟨none, rfl, nofun⟩
  rw [if_neg hmimeLong, cString, if_pos (hzero rfl (Nat.le_of_not_lt hmimeLong)), Option.bind_some,
    add_eq (by omega), Option.bind_some, add_eq (by omega), Option.bind_some]
  by_cases htype : 1 + mimeLen + 1 ≥ size
  · rw [if_pos htype]
    exact ⟨none, rfl, nofun⟩
  obtain ⟨descLen, hdescLe, hdesc, -⟩ := StringSize_spec id3.mData[data]
    (show data + (1 + mimeLen + 1) + (size - (1 + mimeLen + 1)) ≤ id3.mData.length by omega)
    (show size - (1 + mimeLen + 1) + 2 ≤ sizeMax by omega)
  rw [if_neg htype, sub_eq (by omega), Option.bind_some, hdesc, Option.bind_some,
    add_eq (by omega), Option.bind_some]
  by_cases hend : 1 + mimeLen + 1 + descLen ≥ size
  · rw [if_pos hend]
    exact ⟨none, rfl, nofun⟩
  rw [if_neg hend, sub_eq (by omega), Option.bind_some]
  refine ⟨_, rfl, ?_⟩
  rintro art ⟨⟩
  exact ⟨Nat.le_add_right _ _, by dsimp only; omega⟩

theorem albumArtV2_2_inside (hmax : 2 ^ 32 - 1 ≤ sizeMax) (hdata : data + size ≤ id3.mData.length)
    (hpos : 0 < size) (hsmall : size ≤ kMaxMetadataSize) :
    ∃ res, albumArtV2_2 sizeMax id3 data size = some res ∧ ∀ art ∈ res, art.Inside data size := by
  have hmaxSize : kMaxMetadataSize = 3145728 := rfl
  rw [albumArtV2_2, List.getElem?_eq_getElem (show data < id3.mData.length by omega)]
  simp only [Option.bind_eq_bind, Option.bind_some]
  by_cases hshort : size ≤ 5
  · rw [if_pos hshort]
    exact ⟨none, rfl, nofun⟩
  rw [if_neg hshort, Buffer.load_eq (by omega), Option.bind_some]
  cases mimeV2_2 (Ring.slice id3.mData (data + 1) 3) with
  | none => exact ⟨none, rfl, nofun⟩
  | some mime =>
    obtain ⟨descLen, hdescLe, hdesc, -⟩ := StringSize_spec id3.mData[data]
      (show data + 5 + (size - 5) ≤ id3.mData.length by omega)
      (show size - 5 + 2 ≤ sizeMax by omega)
    dsimp only
    rw [sub_eq (by omega), Option.bind_some, hdesc, Option.bind_some]
    by_cases hlong : descLen > size - 5
    · rw [if_pos hlong]
      exact ⟨none, rfl, nofun⟩
    rw [if_neg hlong, sub_eq (by omega), Option.bind_some]
    refine ⟨_, rfl, ?_⟩
    rintro art ⟨⟩
    exact ⟨by dsimp only; omega, by dsimp only; omega⟩

theorem visitedFrom_mem {mID : Option (List Byte)} {calls : Nat} {it : Iterator}
    {its : List Iterator} (h : visitedFrom sizeMax id3 mID calls it = some its)
    (hstands : Stands id3 it) : it ∈ its := by
  cases calls with
  | zero => cases h
  | succ calls =>
    rw [visitedFrom, hstands.mFrameData] at h
    obtain ⟨after, -, h⟩ := Option.bind_eq_some_iff.mp h
    obtain ⟨rest, -, h⟩ := Option.bind_eq_some_iff.mp h
    obtain rfl := Option.some.inj h
    exact List.mem_cons_self

theorem getAlbumArt_inside (hmax : 2 ^ 32 - 1 ≤ sizeMax) (hparsed : id3.Parsed) :
    ∃ res its, getAlbumArt sizeMax id3 = some res ∧
      visited sizeMax id3 (some (albumArtID id3)) = some its ∧
      ∀ art ∈ res, ∃ it ∈ its,
        art.Inside (it.mOffset + id3.getHeaderLength) (it.mFrameSize - id3.getHeaderLength) := by
  have hinside := hparsed.inside
  have hsmall := hparsed.small
  obtain ⟨hfind, -, -, hit⟩ := findFrameFrom_eq hmax hparsed (some (albumArtID id3)) hparsed.first
    (show id3.mSize < id3.mFirstFrameOffset + (id3.mSize + 1) by omega)
  obtain ⟨its, hvisited, -, -⟩ := visited_spec hmax hparsed (some (albumArtID id3))
  have hfrom := hvisited
  rw [visited, findFrame, hfind] at hfrom
  rw [getAlbumArt, findFrame, hfind, Option.bind_eq_bind, Option.bind_some]
  generalize id3.findFrameFrom (some (albumArtID id3)) (id3.mSize + 1) id3.mFirstFrameOffset = it
    at hit hfrom
  obtain hdone | hstands := hit
  · rw [if_pos hdone]
    exact ⟨none, its, rfl, hvisited, fun _ hart => by cases hart⟩
  · have hdata := hstands.data
    have hends := hstands.inside
    have hmem := visitedFrom_mem hfrom hstands
    have hrange : it.mOffset + id3.getHeaderLength + (it.mFrameSize - id3.getHeaderLength) ≤
        id3.mData.length := by omega
    rw [if_neg (by rw [hstands.mFrameData]; exact Option.some_ne_none _), getData, hstands.mFrameData]
    dsimp only
    rw [if_neg (by omega)]
    dsimp only
    split
    · obtain ⟨res, hart, hres⟩ := albumArtV2_3_inside hmax hrange (by omega) (by omega)
      exact ⟨res, its, hart, hvisited, fun art hmemArt => ⟨it, hmem, hres art hmemArt⟩⟩
    · obtain ⟨res, hart, hres⟩ := albumArtV2_2_inside hmax hrange (by omega) (by omega)
      exact ⟨res, its, hart, hvisited, fun art hmemArt => ⟨it, hmem, hres art hmemArt⟩⟩

/-- For any id the iteration over a parsed tag ends, and goes over frames that stand one behind the
other in it. A picture that is returned is a part of the data of such a frame. Nothing outside the
tag is read, and no sum is more than a `size_t` of 32 bits or more holds. -/
theorem iteration_inside (hmax : 2 ^ 32 - 1 ≤ sizeMax) {source : List Byte} {offset : Nat}
    (hparse : parseV2 source offset = some id3) :
    (∀ mID, ∃ its, visited sizeMax id3 mID = some its ∧
      (∀ it ∈ its, id3.mFirstFrameOffset ≤ it.mOffset ∧ id3.getHeaderLength < it.mFrameSize ∧
        it.mOffset + it.mFrameSize ≤ id3.mSize) ∧
      its.Pairwise fun a b => a.mOffset + a.mFrameSize ≤ b.mOffset) ∧
    ∃ res its, getAlbumArt sizeMax id3 = some res ∧
      visited sizeMax id3 (some (albumArtID id3)) = some its ∧
      ∀ art ∈ res, ∃ it ∈ its, it.mOffset + id3.getHeaderLength ≤ art.data ∧
        art.data + art.length ≤ it.mOffset + it.mFrameSize := by
  have hparsed := parseV2_parsed hparse
  refine ⟨?_, ?_⟩
  · intro mID
    obtain ⟨its, hvisited, hall, hpairwise⟩ := visited_spec hmax hparsed mID
    refine ⟨its, hvisited, ?_, hpairwise⟩
    intro it hit
    obtain ⟨hfirst, -, hdata, hends⟩ := hall it hit
    exact ⟨hfirst, hdata, hends⟩
  · obtain ⟨res, its, hart, hvisited, hres⟩ := getAlbumArt_inside hmax hparsed
    have hframes := visited_spec hmax hparsed (some (albumArtID id3))
    rw [hvisited] at hframes
    obtain ⟨_, ⟨⟩, hall, -⟩ := hframes
    refine ⟨res, its, hart, hvisited, ?_⟩
    intro art hmem
    obtain ⟨it, hit, hle, hends⟩ := hres art hmem
    have hdata := (hall it hit).2.data
    exact ⟨it, hit, hle, by omega⟩

/-- A picture of one byte in a tag of version 2. -/
def pictureTag : ID3 where
  mData := [0x50, 0x49, 0x43, 0, 0, 8, 0, 0x50, 0x4E, 0x47, 3, 0x61, 0, 0x99]
  mSize := 14
  mFirstFrameOffset := 0
  mVersion := .ID3_V2_2

theorem iteration_inside_picture :
    getAlbumArt (2 ^ 32 - 1) pictureTag = some (some ⟨13, 1, ascii "image/png"⟩) ∧
      ∃ its, visited (2 ^ 32 - 1) pictureTag (some (albumArtID pictureTag)) = some its ∧
        ∃ it ∈ its, it.mOffset + 6 ≤ 13 ∧ 13 + 1 ≤ it.mOffset + it.mFrameSize := by
  have hparse : parseV2 ([0x49, 0x44, 0x33, 2, 0, 0, 0, 0, 0, 14] ++ pictureTag.mData) 0 =
      some pictureTag := by decide
  have hart : getAlbumArt (2 ^ 32 - 1) pictureTag =
      some (some ⟨13, 1, ascii "image/png"⟩) := by rfl
  obtain ⟨-, res, its, hres, hvisited, hinside⟩ := iteration_inside (Nat.le_refl _) hparse
  obtain rfl := Option.some.inj (hres.symm.trans hart)
  exact ⟨hart, its, hvisited, hinside _ rfl⟩

end Checked

end MediaFramework.Id3
