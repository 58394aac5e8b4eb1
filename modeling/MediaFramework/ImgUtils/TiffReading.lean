import MediaFramework.ImgUtils.TiffFormat

/-!
# Reading TIFF headers

The reader recovers the directories from their layout, and what it has read there is on words and does
not overlap.
-/

namespace MediaFramework.ImgUtils

open Endian (encode encodeAll read readAll length_encode length_encodeAll read_window readAll_window)
open TagType

variable {big : Bool} {bytes : List Byte} {tag count n offset start fuel next : Nat} {type : TagType}
  {data : List Nat} {d : Directory}

/-! ## Lengths -/

theorem aligned_mod (n : Nat) : aligned n % 4 = 0 := by
  rw [aligned, bytesTillWord]
  omega

theorem le_aligned (n : Nat) : n ≤ aligned n := Nat.le_add_right _ _

@[simp]
theorem length_padding (n : Nat) : (padding n).length = bytesTillWord n := List.length_replicate ..

@[simp]
theorem length_info : (info big tag type count).length = 8 := by simp [info]

namespace ProperValues

variable (h : ProperValues tag type count data)
include h

theorem length_encodeAll : (encodeAll big type.elementSize data).length = valueLength type count := by
  rw [Endian.length_encodeAll, h.length]
  rfl

theorem length_outside : (outside big type count data).length = aligned (valueLength type count) := by
  rw [outside, List.length_append, h.length_encodeAll, length_padding]
  rfl

theorem valueLength_pos : 0 < valueLength type count :=
  Nat.mul_pos (elementSize_pos h.type_ne) (Nat.mul_pos (arity_pos type) h.count_pos)

end ProperValues

theorem aligned_of_le_four (hpos : 0 < n) (hle : n ≤ 4) : aligned n = 4 := by
  rw [aligned, bytesTillWord]
  omega

namespace Directory

theorem length_infos (h : d.Proper) (at' : Nat) : (d.infos big at').length = 12 * d.length := by
  induction d generalizing at' with
  | nil => rfl
  | values tag type count data rest ih =>
    obtain ⟨hvalues, hrest⟩ := h
    have hfield : (if valueLength type count ≤ 4 then outside big type count data
        else encode big 4 at').length = 4 := by
      split
      · rename_i hle
        rw [hvalues.length_outside, aligned_of_le_four hvalues.valueLength_pos hle]
      · exact length_encode ..
    rw [infos, List.length_append, List.length_append, length_info, hfield, ih hrest, Directory.length]
    omega
  | sub tag ifd rest _ ih =>
    obtain ⟨-, -, -, hrest⟩ := h
    rw [infos, List.length_append, List.length_append, length_info, length_encode, ih hrest,
      Directory.length]
    omega

theorem length_table (h : d.Proper) : (d.table big next offset).length = aligned (tableSize d.length) := by
  simp only [table, List.length_append, length_encode, length_infos h, length_padding]
  rw [aligned, tableSize]
  omega

theorem length_data (h : d.Proper) (at' : Nat) : (d.data big at').length = d.valuesSize := by
  induction d generalizing at' with
  | nil => rfl
  | values tag type count data rest ih =>
    obtain ⟨hvalues, hrest⟩ := h
    rw [Directory.data, valuesSize, List.length_append, ih hrest, valueSize]
    split
    · rfl
    · rw [hvalues.length_outside]
  | sub tag ifd rest ihIfd ih =>
    obtain ⟨-, -, hifd, hrest⟩ := h
    rw [Directory.data, valuesSize, List.length_append, List.length_append, length_table hifd,
      ihIfd hifd, ih hrest]

theorem length_bytes (h : d.Proper) : (d.bytes big next offset).length = d.size := by
  rw [Directory.bytes, List.length_append, length_table h, length_data h, size]

theorem nodes_le_size (d : Directory) : 12 * d.nodes ≤ 12 * d.length + d.valuesSize := by
  induction d with
  | nil => exact Nat.le_refl 0
  | values tag type count data rest ih =>
    rw [length, nodes, valuesSize]
    omega
  | sub tag ifd rest ihIfd ih =>
    have htable := le_aligned (tableSize ifd.length)
    have hsize : tableSize ifd.length = 2 + 12 * ifd.length + 4 := rfl
    rw [length, nodes, valuesSize]
    omega

theorem valuesSize_mod (d : Directory) : d.valuesSize % 4 = 0 := by
  induction d with
  | nil => rfl
  | values tag type count data rest ih =>
    have halign := aligned_mod (valueLength type count)
    rw [valuesSize, valueSize]
    split
    · omega
    · omega
  | sub tag ifd rest ihIfd ih =>
    have halign := aligned_mod (tableSize ifd.length)
    rw [valuesSize]
    omega

theorem size_mod (d : Directory) : d.size % 4 = 0 := by
  have halign := aligned_mod (tableSize d.length)
  have hvalues := d.valuesSize_mod
  rw [size]
  omega

end Directory

theorem length_chainBytes {ds : List Directory} (h : ∀ d ∈ ds, d.Proper) (offset : Nat) :
    (chainBytes big ds offset).length = chainSize ds := by
  induction ds generalizing offset with
  | nil => rfl
  | cons d ds ih =>
    obtain ⟨hd, hds⟩ := List.forall_mem_cons.mp h
    rw [chainBytes, List.length_append, d.length_bytes hd, ih hds]
    rfl

theorem length_headerBytes (big : Bool) : (headerBytes big).length = FILE_HEADER_SIZE := by
  simp [headerBytes, FILE_HEADER_SIZE]

theorem length_fileBytes {ds : List Directory} (h : ∀ d ∈ ds, d.Proper) :
    (fileBytes big ds).length = fileSize ds := by
  rw [fileBytes, List.length_append, length_headerBytes, length_chainBytes h, fileSize]

theorem length_le_chainSize {ds : List Directory} (h : ∀ d ∈ ds, 0 < d.length) :
    ds.length ≤ chainSize ds := by
  induction ds with
  | nil => exact Nat.le_refl 0
  | cons d ds ih =>
    obtain ⟨hd, hds⟩ := List.forall_mem_cons.mp h
    have htable := le_aligned (tableSize d.length)
    have htableSize : tableSize d.length = 2 + 12 * d.length + 4 := rfl
    have hrest := ih hds
    have hsize : chainSize (d :: ds) = d.size + chainSize ds := List.sum_cons
    rw [List.length_cons, hsize, Directory.size]
    omega

/-! ## Entries -/

theorem read_info (h : Window bytes offset (info big tag type count)) (htag : tag < 2 ^ 16)
    (htype : type ≠ UNKNOWN_TAGTYPE) (hcount : count < 2 ^ 32) :
    read big bytes offset 2 = some tag ∧
      (read big bytes (offset + 2) 2).bind TagType.ofCode = some type ∧
      read big bytes (offset + 4) 4 = some count := by
  rw [info] at h
  have hrest := h.right
  have hlast := hrest.right
  rw [length_encode] at hrest
  rw [length_encode, length_encode] at hlast
  refine ⟨read_window h.left (by decide) htag, ?_, read_window hlast (by decide) hcount⟩
  rw [read_window hrest.left (by decide) (code_lt type), Option.bind_some, ofCode_code htype]

theorem readValues_window (h : ProperValues tag type count data)
    (hfield : Window bytes offset
      (if valueLength type count ≤ 4 then outside big type count data else encode big 4 start))
    (hdata : Window bytes start (if valueLength type count ≤ 4 then [] else outside big type count data))
    (hstart : start < 2 ^ 32) :
    readValues big bytes offset type count = some (data,
      if valueLength type count ≤ 4 then [] else [⟨start, valueLength type count⟩]) := by
  have hread : ∀ {i : Nat}, Window bytes i (outside big type count data) →
      readAll big bytes i type.elementSize (type.arity * count) = some data := by
    intro i hi
    have hpos := h.valueLength_pos
    rw [← h.length]
    refine readAll_window (Window.left hi) ?_ h.fits
    rw [h.length]
    exact hpos
  rw [readValues]
  split
  · rename_i hle
    rw [if_pos hle] at hfield
    rw [hread hfield, Option.map_some]
  · rename_i hgt
    rw [if_neg hgt] at hfield hdata
    rw [read_window hfield (by decide) hstart]
    simp only [Option.bind_eq_bind, Option.bind_some, hread hdata]

/-- What is read of an IFD before and behind its entries. -/
theorem readTable_window (h : d.Proper) (hlength : d.length < 2 ^ 16)
    (htable : Window bytes offset (d.table big next offset)) (hnext : next < 2 ^ 32) :
    read big bytes offset 2 = some d.length ∧
      Window bytes (offset + 2) (d.infos big (offset + aligned (tableSize d.length))) ∧
      read big bytes (offset + 2 + 12 * d.length) 4 = some next := by
  rw [Directory.table] at htable
  have hinfos := htable.right
  rw [length_encode] at hinfos
  have hfooter := hinfos.right
  rw [Directory.length_infos h] at hfooter
  exact ⟨read_window htable.left (by decide) hlength, hinfos.left,
    read_window hfooter.left (by decide) hnext⟩

/-- The entries from their layout at an offset, with their values from another one on. -/
theorem readEntries_infos (h : d.Proper) (hinfos : Window bytes offset (d.infos big start))
    (hdata : Window bytes start (d.data big start)) (hfuel : d.nodes ≤ fuel)
    (hend : start + d.valuesSize < 2 ^ 32) :
    readEntries big bytes fuel offset d.length = some (d, d.regions start) := by
  induction d generalizing offset start fuel with
  | nil => rw [Directory.length, readEntries, Directory.regions]
  | values tag type count data rest ih =>
    obtain ⟨hvalues, hrest⟩ := h
    obtain ⟨fuel, rfl⟩ : ∃ f, fuel = f + 1 := ⟨fuel - 1, by rw [Directory.nodes] at hfuel; omega⟩
    rw [Directory.infos] at hinfos
    rw [Directory.data] at hdata
    rw [Directory.valuesSize] at hend
    rw [Directory.nodes] at hfuel
    obtain ⟨htag, htype, hcount⟩ := read_info hinfos.left hvalues.tag_lt hvalues.type_ne hvalues.count_lt
    have hfield := hinfos.right
    rw [length_info] at hfield
    have hread := readValues_window hvalues hfield.left hdata.left (by omega)
    have hnext : offset + 12 = offset + 8 + (if valueLength type count ≤ 4 then
        outside big type count data else encode big 4 start).length := by
      split
      · rename_i hle
        rw [hvalues.length_outside, aligned_of_le_four hvalues.valueLength_pos hle]
      · rw [length_encode]
    have hbehind : start + valueSize type count = start + (if valueLength type count ≤ 4 then []
        else outside big type count data).length := by
      rw [valueSize]
      split
      · rfl
      · rw [hvalues.length_outside]
    have hrec : readEntries big bytes fuel (offset + 12) rest.length
        = some (rest, rest.regions (start + valueSize type count)) :=
      ih hrest (hnext ▸ hfield.right) (hbehind ▸ hdata.right) (by omega) (by omega)
    rw [Option.bind_eq_some_iff] at htype
    obtain ⟨code, hcode, htype⟩ := htype
    rw [Directory.length, readEntries, Directory.regions]
    simp only [Option.bind_eq_bind, htag, hcode, htype, hcount, Option.bind_some, hread, hrec,
      if_neg hvalues.not_ifd]
  | sub tag ifd rest ihIfd ih =>
    obtain ⟨htag, ⟨hpos, hlength⟩, hifd, hrest⟩ := h
    obtain ⟨fuel, rfl⟩ : ∃ f, fuel = f + 1 := ⟨fuel - 1, by rw [Directory.nodes] at hfuel; omega⟩
    rw [Directory.infos] at hinfos
    rw [Directory.data] at hdata
    rw [Directory.valuesSize] at hend
    rw [Directory.nodes] at hfuel
    have htaglt : tag < 2 ^ 16 := by
      rcases htag with rfl | rfl
      · decide
      · decide
    obtain ⟨hreadtag, htype, hcount⟩ := read_info hinfos.left htaglt (by decide) (by decide)
    have hfield := hinfos.right
    rw [length_info] at hfield
    have hstart := read_window hfield.left (by decide) (by omega)
    have htable := hdata.left
    have hreads := readTable_window hifd hlength htable.left (by decide)
    have hvalues := htable.right
    rw [Directory.length_table hifd] at hvalues
    have hrecIfd : readEntries big bytes fuel (start + 2) ifd.length
        = some (ifd, ifd.regions (start + aligned (tableSize ifd.length))) :=
      ihIfd hifd hreads.2.1 hvalues (by omega) (by omega)
    have hfieldRest := hfield.right
    rw [length_encode] at hfieldRest
    have hdataRest := hdata.right
    have hsize : (ifd.table big 0 start ++ ifd.data big (start + aligned (tableSize ifd.length))).length
        = ifd.size := Directory.length_bytes hifd
    rw [hsize] at hdataRest
    have hrec : readEntries big bytes fuel (offset + 12) rest.length
        = some (rest, rest.regions (start + ifd.size)) :=
      ih hrest hfieldRest hdataRest (by omega) (by rw [Directory.size]; omega)
    rw [Option.bind_eq_some_iff] at htype
    obtain ⟨code, hcode, htype⟩ := htype
    rw [Directory.length, readEntries, Directory.regions]
    simp only [Option.bind_eq_bind, hreadtag, hcode, htype, hcount, Option.bind_some, if_pos htag,
      and_self, if_true, hstart, hreads.1, hrecIfd, hreads.2.2, hrec]

/-! ## Files -/

theorem bytes_le_of_window {held : List Byte} (h : Window bytes offset held) :
    held.length ≤ bytes.length := by
  have hle := h.length_le
  omega

theorem readChain_window {ds : List Directory} (hpos : 0 < offset)
    (h : ∀ d ∈ ds, d.Proper ∧ 0 < d.length ∧ d.length < 2 ^ 16)
    (hwindow : Window bytes offset (chainBytes big ds offset)) (hfuel : ds.length ≤ fuel)
    (hend : offset + chainSize ds < 2 ^ 32) :
    readChain big bytes fuel (if ds.isEmpty then 0 else offset) = some (ds, chainRegions ds offset) := by
  induction ds generalizing offset fuel with
  | nil => cases fuel <;> rfl
  | cons d ds ih =>
    obtain ⟨⟨hd, -, hlength⟩, hds⟩ := List.forall_mem_cons.mp h
    obtain ⟨fuel, rfl⟩ : ∃ f, fuel = f + 1 := ⟨fuel - 1, by rw [List.length_cons] at hfuel; omega⟩
    have hsize : chainSize (d :: ds) = d.size + chainSize ds := List.sum_cons
    rw [chainBytes] at hwindow
    rw [List.length_cons] at hfuel
    have hmine := hwindow.left
    have hrest := hwindow.right
    rw [d.length_bytes hd] at hrest
    have hnodes : d.nodes ≤ bytes.length := by
      have hle := bytes_le_of_window hmine
      have hcount := d.nodes_le_size
      have htable := le_aligned (tableSize d.length)
      have htableSize : tableSize d.length = 2 + 12 * d.length + 4 := rfl
      rw [d.length_bytes hd, Directory.size] at hle
      omega
    rw [Directory.bytes] at hmine
    have hnext : (if ds.isEmpty then 0 else offset + d.size) < 2 ^ 32 := by
      split <;> omega
    obtain ⟨hcount, hinfos, hfooter⟩ := readTable_window hd hlength hmine.left hnext
    have hdata := hmine.right
    rw [Directory.length_table hd] at hdata
    have hentries := readEntries_infos hd hinfos hdata hnodes (by
      rw [Directory.size] at hsize
      omega)
    have hrec : readChain big bytes fuel (if ds.isEmpty then 0 else offset + d.size)
        = some (ds, chainRegions ds (offset + d.size)) := ih (by omega) hds hrest (by omega) (by omega)
    have hne : ¬(if (d :: ds).isEmpty then 0 else offset) = 0 := by
      rw [List.isEmpty_cons]
      exact Nat.ne_of_gt hpos
    rw [readChain, if_neg hne]
    simp only [List.isEmpty_cons, Bool.false_eq_true, if_false, Option.bind_eq_bind, hcount,
      Option.bind_some, hentries, hfooter, hrec]
    rfl

theorem readFile_fileBytes {ds : List Directory} (hne : ds ≠ [])
    (h : ∀ d ∈ ds, d.Proper ∧ 0 < d.length ∧ d.length < 2 ^ 16) (hend : fileSize ds < 2 ^ 32) :
    readFile (fileBytes big ds) = some (ds, chainRegions ds FILE_HEADER_SIZE) := by
  have hall : Window (fileBytes big ds) 0 (headerBytes big ++ chainBytes big ds FILE_HEADER_SIZE) :=
    List.prefix_rfl
  have hheader := hall.left
  have hchain := hall.right
  rw [headerBytes] at hheader
  rw [length_headerBytes, Nat.zero_add] at hchain
  have hmagic := hheader.right
  rw [length_encode] at hmagic
  have hfirst := hmagic.right
  rw [length_encode] at hfirst
  have hmarker : read false (fileBytes big ds) 0 2 = some (byteOrderMarker big) := by
    -- the markers read the same in both byte orders
    have hsame : encode false 2 (byteOrderMarker big) = encode big 2 (byteOrderMarker big) := by
      cases big <;> decide
    exact read_window (hsame ▸ hheader.left) (by decide) (by cases big <;> decide)
  have hbig : byteOrder (byteOrderMarker big) = some big := by cases big <;> decide
  have hcount : ds.length ≤ (fileBytes big ds).length := by
    rw [length_fileBytes fun d hd => (h d hd).1]
    exact Nat.le_trans (length_le_chainSize fun d hd => (h d hd).2.1) (Nat.le_add_left _ _)
  have hread := readChain_window (by decide) h hchain hcount hend
  have hnonempty : ds.isEmpty = false := by
    cases ds with
    | nil => exact absurd rfl hne
    | cons d ds => rfl
  rw [hnonempty, if_neg (by decide)] at hread
  rw [readFile]
  simp only [Option.bind_eq_bind, hmarker, Option.bind_some, hbig,
    read_window hmagic.left (by decide) (show TIFF_FILE_MARKER < 256 ^ 2 by decide), if_true,
    read_window hfirst (by decide) (show FILE_HEADER_SIZE < 256 ^ 4 by decide), hread]

/-! ## Regions -/

/-- Regions from `lo` to `hi` that start on words, each behind the one before. -/
structure Laid (lo hi : Nat) (regions : List Region) : Prop where
  words : ∀ r ∈ regions, r.start % 4 = 0
  within : ∀ r ∈ regions, lo ≤ r.start ∧ r.stop ≤ hi
  behind : regions.Pairwise fun r r' => r.stop ≤ r'.start

namespace Laid

variable {lo mid hi : Nat} {regions regions' : List Region}

theorem nil (lo hi : Nat) : Laid lo hi [] := ⟨nofun, nofun, .nil⟩

theorem single {length : Nat} (hword : start % 4 = 0) (hstop : start + length ≤ hi) :
    Laid start hi [⟨start, length⟩] := by
  refine ⟨?_, ?_, List.pairwise_singleton _ _⟩
  · exact List.forall_mem_singleton.mpr hword
  · exact List.forall_mem_singleton.mpr ⟨Nat.le_refl _, hstop⟩

theorem append (h : Laid lo mid regions) (h' : Laid mid hi regions') (hlo : lo ≤ mid) (hhi : mid ≤ hi) :
    Laid lo hi (regions ++ regions') := by
  refine ⟨List.forall_mem_append.mpr ⟨h.words, h'.words⟩, List.forall_mem_append.mpr ⟨?_, ?_⟩,
    List.pairwise_append.mpr ⟨h.behind, h'.behind, ?_⟩⟩
  · exact fun r hr => ⟨(h.within r hr).1, Nat.le_trans (h.within r hr).2 hhi⟩
  · exact fun r hr => ⟨Nat.le_trans hlo (h'.within r hr).1, (h'.within r hr).2⟩
  · exact fun r hr r' hr' => Nat.le_trans (h.within r hr).2 (h'.within r' hr').1

theorem cons {length : Nat} (hword : start % 4 = 0) (hstop : start + length ≤ mid)
    (h : Laid mid hi regions) (hhi : mid ≤ hi) : Laid start hi (⟨start, length⟩ :: regions) := by
  have hlo : start ≤ mid := Nat.le_trans (Nat.le_add_right _ _) hstop
  exact (single hword hstop).append h hlo hhi

end Laid

theorem Directory.laid (d : Directory) {at' : Nat} (hword : at' % 4 = 0) :
    Laid at' (at' + d.valuesSize) (d.regions at') := by
  induction d generalizing at' with
  | nil => exact Laid.nil _ _
  | values tag type count data rest ih =>
    rw [valuesSize, regions, valueSize, ← Nat.add_assoc]
    have halign := aligned_mod (valueLength type count)
    have hle := le_aligned (valueLength type count)
    split
    · exact ih hword
    · exact Laid.append (Laid.single hword (by omega)) (ih (by omega)) (by omega) (by omega)
  | sub tag ifd rest ihIfd ih =>
    have halign := aligned_mod (tableSize ifd.length)
    have hle := le_aligned (tableSize ifd.length)
    have hsize : ifd.size = aligned (tableSize ifd.length) + ifd.valuesSize := rfl
    have hmod := ifd.size_mod
    have hrest : Laid (at' + ifd.size) (at' + ifd.size + rest.valuesSize)
        (rest.regions (at' + ifd.size)) := ih (by omega)
    have hifd : Laid (at' + aligned (tableSize ifd.length))
        (at' + aligned (tableSize ifd.length) + ifd.valuesSize)
        (ifd.regions (at' + aligned (tableSize ifd.length))) := ihIfd (by omega)
    have hend : at' + (sub tag ifd rest).valuesSize = at' + ifd.size + rest.valuesSize := by
      rw [valuesSize, hsize]
      omega
    have hmid : at' + aligned (tableSize ifd.length) + ifd.valuesSize = at' + ifd.size := by
      rw [hsize]
      omega
    rw [hmid] at hifd
    rw [hend, regions]
    exact Laid.cons hword (by omega) (hifd.append hrest (by omega) (by omega)) (by omega)

theorem chain_laid (ds : List Directory) (hword : offset % 4 = 0) :
    Laid offset (offset + chainSize ds) (chainRegions ds offset) := by
  induction ds generalizing offset with
  | nil => exact Laid.nil _ _
  | cons d ds ih =>
    have halign := aligned_mod (tableSize d.length)
    have hle := le_aligned (tableSize d.length)
    have hmod := d.size_mod
    have hsize : d.size = aligned (tableSize d.length) + d.valuesSize := rfl
    have hmine : Laid (offset + aligned (tableSize d.length))
        (offset + aligned (tableSize d.length) + d.valuesSize)
        (d.regions (offset + aligned (tableSize d.length))) := d.laid (by omega)
    have hrest : Laid (offset + d.size) (offset + d.size + chainSize ds)
        (chainRegions ds (offset + d.size)) := ih (by omega)
    have hmid : offset + aligned (tableSize d.length) + d.valuesSize = offset + d.size := by omega
    have hend : offset + chainSize (d :: ds) = offset + d.size + chainSize ds := by
      rw [chainSize, List.map_cons, List.sum_cons, ← Nat.add_assoc]
      rfl
    rw [hmid] at hmine
    rw [hend, chainRegions]
    exact Laid.cons hword (by omega) (hmine.append hrest (by omega) (by omega)) (by omega)

end MediaFramework.ImgUtils
