import MediaFramework.ImgUtils.TiffRuns

/-!
# Strips of an image

How `validateAndSetStripTags` divides the rows of an image among strips.
-/

namespace MediaFramework.ImgUtils

open TagType
open Status

namespace TiffIfd

/-- The values of the four entries that the division depends on. -/
structure Carries (ifd : TiffIfd) (width height bitsPerSample samplesPerPixel : Nat) : Prop where
  widthEntry : ∃ e data, ifd.getEntry TAG_IMAGEWIDTH = some e ∧ e.getLongs = some (width :: data)
  heightEntry : ∃ e data, ifd.getEntry TAG_IMAGELENGTH = some e ∧ e.getLongs = some (height :: data)
  samplesEntry : ∃ e data, ifd.getEntry TAG_SAMPLESPERPIXEL = some e ∧
    e.getShorts = some (samplesPerPixel :: data)
  bitsEntry : ∃ e data, ifd.getEntry TAG_BITSPERSAMPLE = some e ∧
    e.getShorts = some (bitsPerSample :: data)
  width_lt : width < 2^32
  height_lt : height < 2^32
  samples_lt : samplesPerPixel < 2^16
  bits_lt : bitsPerSample < 2^16

/-- The bytes of a row. -/
def rowLength (width bitsPerSample samplesPerPixel : Nat) : Nat :=
  bitsPerSample / 8 * samplesPerPixel * width

/-- `byteCounts` is a division of the rows into strips, and it is what the entries say. -/
structure Strips (ifd : TiffIfd) (row height rowsPerStrip : Nat) (byteCounts : List Nat) :
    Prop where
  rows : ifd.getEntry TAG_ROWSPERSTRIP = some (longs [rowsPerStrip])
  counts : ifd.getEntry TAG_STRIPBYTECOUNTS = some (longs byteCounts)
  rows_pos : 1 ≤ rowsPerStrip
  least : ∀ n, byteCounts.length ≤ n ↔ height ≤ n * rowsPerStrip
  bounds : ∀ c ∈ byteCounts, 0 < c ∧ c ≤ 65536
  whole : ∀ c ∈ byteCounts.dropLast, c = rowsPerStrip * row
  sum : byteCounts.sum = row * height
  size : row * height < 2^32 → ifd.getStripSize = some (row * height)

/-! ### The division -/

def byteCounts (row rows height : Nat) : List Nat :=
  List.replicate (height / rows) (rows * row) ++
    if 0 < height % rows then [height % rows * row] else []

variable {row rows height : Nat}

theorem length_byteCounts (hrows : 0 < rows) (n : Nat) :
    (byteCounts row rows height).length ≤ n ↔ height ≤ n * rows := by
  have hdiv := Nat.div_add_mod height rows
  have hmod := Nat.mod_lt height hrows
  rw [byteCounts, List.length_append, List.length_replicate]
  split
  · rw [List.length_singleton, Nat.succ_le_iff, Nat.div_lt_iff_lt_mul hrows]
    refine ⟨Nat.le_of_lt, fun hle => Nat.lt_of_le_of_ne hle ?_⟩
    rintro rfl
    rw [Nat.mul_mod_left] at *
    omega
  · rw [List.length_nil, Nat.add_zero, Nat.div_le_iff_le_mul_add_pred hrows]
    have hexact : height = rows * (height / rows) := by omega
    rw [Nat.mul_comm n rows]
    refine ⟨fun hle => ?_, fun hle => Nat.le_trans hle (Nat.le_add_right _ _)⟩
    rw [hexact] at hle ⊢
    refine Nat.mul_le_mul_left rows (Nat.le_of_lt_succ ?_)
    refine Nat.lt_of_mul_lt_mul_left (a := rows) ?_
    rw [Nat.mul_succ]
    omega

theorem sum_byteCounts (row rows height : Nat) :
    (byteCounts row rows height).sum = row * height := by
  have hdiv := Nat.div_add_mod height rows
  have hrest : (if 0 < height % rows then [height % rows * row] else []).sum =
      height % rows * row := by
    split
    · rw [List.sum_cons, List.sum_nil, Nat.add_zero]
    · next hzero => rw [Nat.eq_zero_of_not_pos hzero, Nat.zero_mul, List.sum_nil]
  rw [byteCounts, List.sum_append, List.sum_replicate_nat, hrest, ← Nat.mul_assoc,
    ← Nat.add_mul, Nat.mul_comm (height / rows), hdiv, Nat.mul_comm]

theorem byteCounts_bounds (hpos : 0 < row) (hrows : 0 < rows) (hle : rows * row ≤ 65536) :
    ∀ c ∈ byteCounts row rows height, 0 < c ∧ c ≤ 65536 := by
  intro c hc
  rcases List.mem_append.mp hc with hwhole | hlast
  · rw [List.eq_of_mem_replicate hwhole]
    exact ⟨Nat.mul_pos hrows hpos, hle⟩
  · split at hlast
    · next hsome =>
      rw [List.mem_singleton.mp hlast]
      have hmod := Nat.mul_le_mul_right row (Nat.le_of_lt (Nat.mod_lt height hrows))
      exact ⟨Nat.mul_pos hsome hpos, Nat.le_trans hmod hle⟩
    · cases hlast

theorem byteCounts_whole : ∀ c ∈ (byteCounts row rows height).dropLast, c = rows * row := by
  intro c hc
  rw [byteCounts] at hc
  split at hc
  · rw [List.dropLast_concat] at hc
    exact List.eq_of_mem_replicate hc
  · rw [List.append_nil] at hc
    exact List.eq_of_mem_replicate (List.mem_of_mem_dropLast hc)

/-! ### The entries -/

variable {ifd : TiffIfd} {width bitsPerSample samplesPerPixel : Nat}

/-- What is left to do once the strips are known. -/
def addStripTags (ifd : TiffIfd) (rows : Nat) (counts : List Nat) : Status × TiffIfd :=
  let r₁ := ifd.addEntry TAG_STRIPBYTECOUNTS (longs counts)
  if r₁.1 ≠ OK then (BAD_VALUE, r₁.2)
  else
    let r₂ := r₁.2.addEntry TAG_ROWSPERSTRIP (longs [rows])
    if r₂.1 ≠ OK then (BAD_VALUE, r₂.2)
    else
      let r₃ := r₂.2.addEntry TAG_STRIPOFFSETS (longs (List.replicate counts.length 0))
      if r₃.1 ≠ OK then (BAD_VALUE, r₃.2) else (OK, { r₃.2 with mStripOffsetsInitialized := true })

def rowsPerChunk (row : Nat) : Nat := max 1 (2^13 / row)

theorem rowsPerChunk_mul (hpos : 0 < row) :
    rowsPerChunk row * row = if row ≤ 2^13 then 2^13 / row * row else row := by
  rw [rowsPerChunk]
  split
  · next hle => rw [Nat.max_eq_right (Nat.div_pos hle hpos)]
  · next hgt => rw [Nat.div_eq_of_lt (Nat.lt_of_not_le hgt), Nat.max_eq_left (Nat.zero_le 1), Nat.one_mul]

theorem rowsPerChunk_bounds (hpos : 0 < row) :
    (65536 < rowsPerChunk row * row ↔ 65536 < row) ∧ rowsPerChunk row * row ≤ max (2^13) row := by
  rw [rowsPerChunk_mul hpos]
  split
  · have hle := Nat.div_mul_le_self (2^13) row
    omega
  · omega

theorem validateAndSetStripTags_eq (h : ifd.Carries width height bitsPerSample samplesPerPixel) :
    ifd.validateAndSetStripTags =
      if bitsPerSample % 8 ≠ 0 then some (BAD_VALUE, ifd)
      else
        let row := rowLength width bitsPerSample samplesPerPixel % 2^32
        if row = 0 then none
        else if 65536 < row then some (BAD_VALUE, ifd)
        else some (ifd.addStripTags (rowsPerChunk row) (byteCounts row (rowsPerChunk row) height)) := by
  obtain ⟨e₁, ws, hw, hwidth⟩ := h.widthEntry
  obtain ⟨e₂, hs, hh, hheight⟩ := h.heightEntry
  obtain ⟨e₃, ss, hsamples, hsample⟩ := h.samplesEntry
  obtain ⟨e₄, bs, hb, hbits⟩ := h.bitsEntry
  rw [validateAndSetStripTags, hw, hh, hsamples, hb]
  simp only [hwidth, hheight, hbits, hsample, Option.bind_eq_bind, Option.bind_some,
    List.getElem?_cons_zero]
  by_cases haligned : bitsPerSample % 8 ≠ 0
  · rw [if_pos haligned, if_pos haligned]
  rw [if_neg haligned, if_neg haligned, rowLength]
  generalize hrow : bitsPerSample / 8 * samplesPerPixel * width % 2^32 = row
  have hlt : row < 2^32 := by
    rw [← hrow]
    exact Nat.mod_lt _ (by decide)
  by_cases hzero : row = 0
  · rw [if_pos hzero, if_pos hzero]
  obtain ⟨hlong, hle⟩ := rowsPerChunk_bounds (Nat.pos_of_ne_zero hzero)
  have hactual : row * max 1 (2^13 / row) % 2^32 = rowsPerChunk row * row := by
    rw [Nat.mul_comm, ← rowsPerChunk, Nat.mod_eq_of_lt (by omega)]
  have hlast : height % max 1 (2^13 / row) * row % 2^32 = height % rowsPerChunk row * row := by
    have hmod : height % rowsPerChunk row < rowsPerChunk row :=
      Nat.mod_lt _ (Nat.lt_of_lt_of_le Nat.zero_lt_one (Nat.le_max_left 1 _))
    have hmul := Nat.mul_le_mul_right row (Nat.le_of_lt hmod)
    rw [← rowsPerChunk, Nat.mod_eq_of_lt (by omega)]
  rw [if_neg hzero, if_neg hzero, hactual, hlast, ← rowsPerChunk]
  simp only [hlong]
  by_cases hbig : 65536 < row
  · rw [if_pos hbig, if_pos hbig]
  · rw [if_neg hbig, if_neg hbig, ← byteCounts, addStripTags]
    dsimp only
    split
    · rfl
    · split
      · rfl
      · split <;> rfl

/-- How many of the first two entries are new. -/
def newTags (ifd : TiffIfd) : Nat :=
  ([TAG_STRIPBYTECOUNTS, TAG_ROWSPERSTRIP].filter fun tag => (ifd.getEntry tag).isNone).length

theorem size_set_eq (m : KeyedVector Nat TiffEntry) (tag : Nat) (entry : TiffEntry) :
    (m.set tag entry).size = m.size + if (m.find? tag).isNone then 1 else 0 := by
  cases hold : m.find? tag with
  | none => exact m.size_set_new hold
  | some old => exact m.size_set hold

/-- The entries of the vector after the first two. -/
theorem size_newTags (counts rows : TiffEntry) :
    ((ifd.mEntries.set TAG_STRIPBYTECOUNTS counts).set TAG_ROWSPERSTRIP rows).size =
      ifd.mEntries.size + ifd.newTags := by
  have hne : TAG_ROWSPERSTRIP ≠ TAG_STRIPBYTECOUNTS := by decide
  rw [size_set_eq, size_set_eq, KeyedVector.find?_set, if_neg hne, Nat.add_assoc, newTags,
    List.filter_cons, List.filter_cons, List.filter_nil, getEntry, getEntry]
  cases ifd.mEntries.find? TAG_STRIPBYTECOUNTS <;> cases ifd.mEntries.find? TAG_ROWSPERSTRIP <;> rfl

/-- The IFD with some of the entries. -/
def withEntry (ifd : TiffIfd) (tag : Nat) (entry : TiffEntry) : TiffIfd :=
  { ifd with mEntries := ifd.mEntries.set tag entry }

theorem addEntry_full (hfull : MAX_IFD_ENTRIES ≤ ifd.mEntries.size) (tag : Nat) (entry : TiffEntry) :
    ifd.addEntry tag entry = (BAD_INDEX, ifd) := if_pos hfull

theorem addEntry_room (hroom : ifd.mEntries.size < MAX_IFD_ENTRIES) (tag : Nat) (entry : TiffEntry) :
    ifd.addEntry tag entry = (OK, ifd.withEntry tag entry) := if_neg (Nat.not_le.mpr hroom)

theorem getEntry_withEntry (ifd : TiffIfd) (tag tag' : Nat) (entry : TiffEntry) :
    (ifd.withEntry tag entry).getEntry tag' = if tag' = tag then some entry else ifd.getEntry tag' :=
  ifd.mEntries.find?_set tag tag' entry

theorem addStripTags_full (hfull : MAX_IFD_ENTRIES ≤ ifd.mEntries.size) (rows : Nat) (counts : List Nat) :
    ifd.addStripTags rows counts = (BAD_VALUE, ifd) := by
  rw [addStripTags, addEntry_full hfull]
  exact if_pos (by decide : BAD_INDEX ≠ OK)

/-- The vector is full after the first entry or after the second. -/
theorem addStripTags_short (hsome : ifd.mEntries.size < MAX_IFD_ENTRIES)
    (hshort : MAX_IFD_ENTRIES ≤ ifd.mEntries.size + ifd.newTags) (rows : Nat) (counts : List Nat) :
    (ifd.addStripTags rows counts).1 ≠ OK ∧
      (ifd.addStripTags rows counts).2.mEntries ≠ ifd.mEntries := by
  have hgrown : ∀ m : KeyedVector Nat TiffEntry, MAX_IFD_ENTRIES ≤ m.size → m ≠ ifd.mEntries := by
    rintro m hm rfl
    omega
  rw [addStripTags, addEntry_room hsome]
  dsimp only
  rw [if_neg (not_not_intro rfl)]
  by_cases hfirst : MAX_IFD_ENTRIES ≤ (ifd.withEntry TAG_STRIPBYTECOUNTS (longs counts)).mEntries.size
  · rw [addEntry_full hfirst, if_pos (by decide : BAD_INDEX ≠ OK)]
    exact ⟨(by decide : BAD_VALUE ≠ OK), hgrown _ hfirst⟩
  · rw [addEntry_room (Nat.lt_of_not_le hfirst)]
    dsimp only
    rw [← size_newTags (longs counts) (longs [rows])] at hshort
    have hsecond : MAX_IFD_ENTRIES ≤ ((ifd.withEntry TAG_STRIPBYTECOUNTS (longs counts)).withEntry
      TAG_ROWSPERSTRIP (longs [rows])).mEntries.size := hshort
    rw [if_neg (not_not_intro rfl), addEntry_full hsecond, if_pos (by decide : BAD_INDEX ≠ OK)]
    exact ⟨(by decide : BAD_VALUE ≠ OK), hgrown _ hsecond⟩

theorem addStripTags_room (hroom : ifd.mEntries.size + ifd.newTags < MAX_IFD_ENTRIES)
    (rows : Nat) (counts : List Nat) :
    ∃ ifd', ifd.addStripTags rows counts = (OK, ifd') ∧
      ifd'.getEntry TAG_ROWSPERSTRIP = some (longs [rows]) ∧
      ifd'.getEntry TAG_STRIPBYTECOUNTS = some (longs counts) := by
  have hcounts : TAG_STRIPBYTECOUNTS ≠ TAG_STRIPOFFSETS ∧ TAG_STRIPBYTECOUNTS ≠ TAG_ROWSPERSTRIP := by
    decide
  have hrows : TAG_ROWSPERSTRIP ≠ TAG_STRIPOFFSETS := by decide
  have hsecond : ((ifd.withEntry TAG_STRIPBYTECOUNTS (longs counts)).withEntry
      TAG_ROWSPERSTRIP (longs [rows])).mEntries.size < MAX_IFD_ENTRIES := by
    rw [← size_newTags (longs counts) (longs [rows])] at hroom
    exact hroom
  have hfirst : (ifd.withEntry TAG_STRIPBYTECOUNTS (longs counts)).mEntries.size <
      MAX_IFD_ENTRIES := by
    refine Nat.lt_of_le_of_lt ?_ hsecond
    exact Nat.le.intro (size_set_eq _ TAG_ROWSPERSTRIP (longs [rows])).symm
  rw [addStripTags, addEntry_room (by omega)]
  dsimp only
  rw [if_neg (not_not_intro rfl), addEntry_room hfirst]
  dsimp only
  rw [if_neg (not_not_intro rfl), addEntry_room hsecond]
  refine ⟨_, if_neg (not_not_intro rfl), ?_, ?_⟩
  · show TiffIfd.getEntry (TiffIfd.withEntry _ _ _) _ = _
    rw [getEntry_withEntry, if_neg hrows, getEntry_withEntry, if_pos rfl]
  · show TiffIfd.getEntry (TiffIfd.withEntry _ _ _) _ = _
    rw [getEntry_withEntry, if_neg hcounts.1, getEntry_withEntry, if_neg hcounts.2, getEntry_withEntry,
      if_pos rfl]

/-! ### What is promised -/

theorem getStripSize_longs {counts : List Nat} (hentry : ifd.getEntry TAG_STRIPBYTECOUNTS = some (longs counts))
    (hlength : counts.length < 2^32) (hsum : counts.sum < 2^32) :
    ifd.getStripSize = some counts.sum := by
  have htake : (longs counts).takeLongs (longs counts).getCount = some counts := by
    have hcount : (longs counts).getCount = counts.length := Nat.mod_eq_of_lt hlength
    rw [TiffEntry.takeLongs, hcount]
    split
    · next hzero => rw [List.length_eq_zero_iff.mp hzero]
    · show some (counts.take counts.length) = _
      rw [List.take_length]
  have hfold : counts.foldl (fun total n => (total + id n) % 2^32) 0 = 0 + (counts.map id).sum :=
    foldl_add_eq (fun _ _ _ => rfl) (by rwa [List.map_id, Nat.zero_add])
  rw [List.map_id, Nat.zero_add] at hfold
  rw [getStripSize, hentry]
  show (TiffEntry.takeLongs _ _).bind _ = _
  rw [htake]
  exact congrArg some hfold

/-- No number is divided by zero; what succeeds divides the rows of the image, as long as they are;
and what fails changes no entry. -/
structure StripsSet (ifd : TiffIfd) (width height bitsPerSample samplesPerPixel : Nat) : Prop where
  divides : ifd.validateAndSetStripTags ≠ none
  strips : ∀ ifd', ifd.validateAndSetStripTags = some (OK, ifd') →
    rowLength width bitsPerSample samplesPerPixel < 2^32 ∧ ∃ rowsPerStrip counts,
      ifd'.Strips (rowLength width bitsPerSample samplesPerPixel) height rowsPerStrip counts
  kept : ∀ status ifd', ifd.validateAndSetStripTags = some (status, ifd') → status ≠ OK →
    ifd'.mEntries = ifd.mEntries

/-- The samples are not of whole bytes; or the length of a row is not zero in 32 bits and, unless it is
too long or no entry can be added, it is that of the row and there is room for all entries. -/
def StripsSafe (ifd : TiffIfd) (width bitsPerSample samplesPerPixel : Nat) : Prop :=
  bitsPerSample % 8 = 0 → rowLength width bitsPerSample samplesPerPixel % 2^32 ≠ 0 ∧
    (rowLength width bitsPerSample samplesPerPixel % 2^32 ≤ 65536 → ifd.mEntries.size < MAX_IFD_ENTRIES →
      rowLength width bitsPerSample samplesPerPixel < 2^32 ∧
        ifd.mEntries.size + ifd.newTags < MAX_IFD_ENTRIES)

theorem StripsSet.of_unchanged {status : Status} (hstatus : status ≠ OK)
    (h : ifd.validateAndSetStripTags = some (status, ifd)) :
    ifd.StripsSet width height bitsPerSample samplesPerPixel := by
  refine ⟨?_, fun ifd' hok => ?_, fun status' ifd' hresult _ => ?_⟩
  · rw [h]
    exact Option.some_ne_none _
  · rw [h] at hok
    exact absurd (congrArg Prod.fst (Option.some.inj hok)) hstatus
  · rw [h] at hresult
    rw [(Prod.mk.inj (Option.some.inj hresult)).2]

theorem strips_byteCounts {ifd' : TiffIfd} (hpos : 0 < row) (hle : row ≤ 65536) (hheight : height < 2^32)
    (hrows : ifd'.getEntry TAG_ROWSPERSTRIP = some (longs [rowsPerChunk row]))
    (hcounts : ifd'.getEntry TAG_STRIPBYTECOUNTS =
      some (longs (byteCounts row (rowsPerChunk row) height))) :
    ifd'.Strips row height (rowsPerChunk row) (byteCounts row (rowsPerChunk row) height) := by
  have hone : 1 ≤ rowsPerChunk row := Nat.le_max_left 1 _
  have hbound := (rowsPerChunk_bounds hpos).2
  have hsum := sum_byteCounts row (rowsPerChunk row) height
  refine ⟨hrows, hcounts, hone, length_byteCounts hone, ?_, byteCounts_whole, hsum, fun hsize => ?_⟩
  · exact byteCounts_bounds hpos hone (by omega)
  · have hlength : (byteCounts row (rowsPerChunk row) height).length ≤ height :=
      (length_byteCounts hone height).mpr (Nat.le_mul_of_pos_right height hone)
    rw [← hsum] at hsize ⊢
    exact getStripSize_longs hcounts (by omega) hsize

theorem stripsSet_iff (h : ifd.Carries width height bitsPerSample samplesPerPixel) :
    ifd.StripsSet width height bitsPerSample samplesPerPixel ↔
      ifd.StripsSafe width bitsPerSample samplesPerPixel := by
  have hresult := validateAndSetStripTags_eq h
  rw [StripsSafe]
  by_cases haligned : bitsPerSample % 8 ≠ 0
  · rw [if_pos haligned] at hresult
    exact iff_of_true (.of_unchanged (by decide) hresult) fun hzero => absurd hzero haligned
  rw [if_neg haligned] at hresult
  rw [not_not] at haligned
  simp only [haligned, forall_const]
  dsimp only at hresult
  have height_lt := h.height_lt
  by_cases hzero : rowLength width bitsPerSample samplesPerPixel % 2^32 = 0
  · rw [if_pos hzero] at hresult
    exact iff_of_false (fun hset => hset.divides hresult) fun hsafe => hsafe.1 hzero
  rw [if_neg hzero] at hresult
  by_cases hlong : 65536 < rowLength width bitsPerSample samplesPerPixel % 2^32
  · rw [if_pos hlong] at hresult
    exact iff_of_true (.of_unchanged (by decide) hresult) ⟨hzero, fun hle => by omega⟩
  rw [if_neg hlong] at hresult
  by_cases hfull : MAX_IFD_ENTRIES ≤ ifd.mEntries.size
  · rw [addStripTags_full hfull] at hresult
    exact iff_of_true (.of_unchanged (by decide) hresult) ⟨hzero, fun _ hsome => by omega⟩
  by_cases hshort : MAX_IFD_ENTRIES ≤ ifd.mEntries.size + ifd.newTags
  · obtain ⟨hstatus, hchanged⟩ := addStripTags_short (Nat.lt_of_not_le hfull) hshort
      (rowsPerChunk _) (byteCounts _ (rowsPerChunk _) height)
    refine iff_of_false (fun hset => hchanged (hset.kept _ _ hresult hstatus)) fun hsafe => ?_
    have hroom := (hsafe.2 (by omega) (by omega)).2
    omega
  obtain ⟨ifd', hadd, hrows, hcounts⟩ := addStripTags_room (Nat.lt_of_not_le hshort)
    (rowsPerChunk _) (byteCounts _ (rowsPerChunk _) height)
  rw [hadd] at hresult
  constructor
  · intro hset
    exact ⟨hzero, fun _ _ => ⟨(hset.strips ifd' hresult).1, by omega⟩⟩
  · rintro ⟨-, hsafe⟩
    obtain ⟨hfits, -⟩ := hsafe (by omega) (by omega)
    rw [Nat.mod_eq_of_lt hfits] at hrows hcounts hzero hlong
    refine ⟨?_, fun ifd'' hok => ?_, fun status ifd'' hother hne => ?_⟩
    · rw [hresult]
      exact Option.some_ne_none _
    · rw [hresult] at hok
      obtain ⟨-, rfl⟩ := Prod.mk.inj (Option.some.inj hok)
      exact ⟨hfits, _, _, strips_byteCounts (Nat.pos_of_ne_zero hzero) (by omega) height_lt hrows hcounts⟩
    · rw [hresult] at hother
      exact absurd (Prod.mk.inj (Option.some.inj hother)).1.symm hne

/-- An image of one byte a pixel. -/
def grey (width height : Nat) : TiffIfd where
  mEntries := (((KeyedVector.empty.set TAG_IMAGEWIDTH (longs [width])).set TAG_IMAGELENGTH
    (longs [height])).set TAG_BITSPERSAMPLE (.values ⟨SHORT, 1, .UNDEFINED_ENDIAN, 2, [8]⟩)).set
      TAG_SAMPLESPERPIXEL (.values ⟨SHORT, 1, .UNDEFINED_ENDIAN, 2, [1]⟩)

theorem carries_grey (hwidth : width < 2^32) (hheight : height < 2^32) :
    (grey width height).Carries width height 8 1 :=
  ⟨⟨_, _, rfl, rfl⟩, ⟨_, _, rfl, rfl⟩, ⟨_, _, rfl, rfl⟩, ⟨_, _, rfl, rfl⟩, hwidth, hheight, by decide,
    by decide⟩

theorem stripsSet_grey : (grey 3000 100).StripsSet 3000 100 8 1 :=
  (stripsSet_iff (carries_grey (by decide) (by decide))).mpr fun _ =>
    ⟨by decide, fun _ _ => ⟨by decide, by decide⟩⟩

/-- Rows without pixels. -/
theorem not_stripsSet_empty : (grey 0 1).Carries 0 1 8 1 ∧ ¬(grey 0 1).StripsSet 0 1 8 1 :=
  ⟨carries_grey (by decide) (by decide), fun hset => hset.divides rfl⟩

end TiffIfd

end MediaFramework.ImgUtils
