import MediaFramework.Mp4.TimeSearch

/-!
# Completeness of the time index

`buildSampleEntriesTable` allocates an entry for every sample that `stsz` counts and writes
one for every sample that `stts` describes. The two counts come from different boxes.
-/

namespace MediaFramework.Mp4

open RunLength Status

/-! ### The table read from the file -/

/-- The big-endian word at a position. -/
def U32_AT (bytes : List (BitVec 8)) (i : Nat) : Nat :=
  ((bytes.drop i).take 4).foldl (fun acc b => 256 * acc + b.toNat) 0

/-- The fields that `setTimeToSampleParams` sets. -/
structure TimeToSample where
  mHasTimeToSample : Bool := false
  mTimeToSampleCount : Nat := 0
  mTimeToSample : List TimeToSampleEntry := []
  mTotalSize : Nat := 0

/-- `allocated` says whether the allocation succeeds. A failure ends the parsing of the file,
and nothing is kept of it here. -/
def SampleTable.setTimeToSampleParams (T : SampleTable) (allocated : Bool) (s : TimeToSample)
    (data_offset : Int) (data_size : Nat) : Except Status TimeToSample :=
  if s.mHasTimeToSample ∨ data_size < 8 then .error .ERROR_MALFORMED
  else
    let header := T.readAt data_offset 8
    if header.length < 8 then .error ERROR_IO
    else if U32_AT header 0 ≠ 0 then .error .ERROR_MALFORMED
    else
      let mTimeToSampleCount := U32_AT header 4
      if UINT32_MAX / 8 < mTimeToSampleCount then .error .ERROR_OUT_OF_RANGE
      else
        let allocSize := mTimeToSampleCount * 2 * 4
        let mTotalSize := (s.mTotalSize + allocSize) % 2^64
        if kMaxTotalSize < mTotalSize then .error .ERROR_OUT_OF_RANGE
        else if ¬allocated then .error .ERROR_OUT_OF_RANGE
        else
          let bytes := T.readAt (data_offset + 8) allocSize
          if bytes.length < allocSize then .error ERROR_IO
          else .ok {
            mHasTimeToSample := true
            mTimeToSampleCount := mTimeToSampleCount
            mTimeToSample := (List.range mTimeToSampleCount).map fun i =>
              ⟨BitVec.ofNat 32 (U32_AT bytes (8 * i)), BitVec.ofNat 32 (U32_AT bytes (8 * i + 4))⟩
            mTotalSize := mTotalSize }

/-- The number of samples that `stts` describes. -/
def SampleTable.describedSamples (T : SampleTable) : Nat :=
  (T.mTimeToSample.map fun e => e.count.toNat).sum

/-- The index has an entry for each sample, and its entries are in the order of time. -/
structure Complete (T : SampleTable) (t : TimeTable) : Prop where
  indices : ((t.mSampleTimeEntries.getD []).map (·.mSampleIndex)).Perm
    (List.range T.mNumSampleSizes.toNat)
  sorted : (t.mSampleTimeEntries.getD []).Pairwise fun a b => a.mCompositionTime ≤ b.mCompositionTime

variable {T : SampleTable}

theorem durations_length (T : SampleTable) : T.durations.length = T.describedSamples := by
  rw [SampleTable.durations, SampleTable.timeRuns, SampleTable.describedSamples]
  induction T.mTimeToSample with
  | nil => rfl
  | cons e es ih =>
    rw [List.map_cons, expand_cons, List.length_append, List.length_replicate, ih, List.map_cons,
      List.sum_cons]

/-! ### What the loop writes -/

/-- The loop state with other memory. -/
def EntryBuilder.on (b : EntryBuilder) (raw : Nat → SampleTimeEntry) : EntryBuilder :=
  { b with entries := raw }

/-- An entry written depends on nothing that was in memory. -/
theorem addEntry_on (b : EntryBuilder) :
    ∃ (b' : EntryBuilder) (e : SampleTimeEntry), e.mSampleIndex = b.sampleIndex ∧
      b'.sampleIndex = b.sampleIndex ∧
      ∀ raw, T.addEntry (b.on raw) = b'.on (Function.update raw b.sampleIndex e) :=
  ⟨T.addEntry b, (T.addEntry b).entries b.sampleIndex,
    by simp only [SampleTable.addEntry, Function.update_self], rfl,
    fun raw => by simp only [SampleTable.addEntry, EntryBuilder.on, Function.update_self]⟩

theorem addSample_on (b : EntryBuilder) (delta : Nat) :
    ∃ (b' : EntryBuilder) (e : SampleTimeEntry), e.mSampleIndex = b.sampleIndex ∧
      b'.sampleIndex = (b.sampleIndex + 1) % 2^32 ∧
      ∀ raw, T.addSample (b.on raw) delta = b'.on
        (if b.sampleIndex < T.mNumSampleSizes.toNat then Function.update raw b.sampleIndex e
          else raw) := by
  by_cases hlt : b.sampleIndex < T.mNumSampleSizes.toNat
  · obtain ⟨c, e, he, hindex, hadd⟩ := addEntry_on (T := T) b
    refine ⟨{ c with
      sampleIndex := (c.sampleIndex + 1) % 2^32
      sampleTime := if UINT64_MAX - delta < c.sampleTime then UINT64_MAX else c.sampleTime + delta },
      e, he, by rw [← hindex], fun raw => ?_⟩
    have hlt' : (b.on raw).sampleIndex < T.mNumSampleSizes.toNat := hlt
    simp only [SampleTable.addSample, if_pos hlt, if_pos hlt', hadd]
    rfl
  · refine ⟨T.addSample b delta, ⟨b.sampleIndex, 0⟩, rfl, ?_, fun raw => ?_⟩
    · simp only [SampleTable.addSample, if_neg hlt]
    · have hlt' : ¬(b.on raw).sampleIndex < T.mNumSampleSizes.toNat := hlt
      simp only [SampleTable.addSample, if_neg hlt, if_neg hlt']
      rfl

/-- The loop after `i` samples, in memory with any contents: the cells of these samples hold the
entries of `table`, and the others what they held. -/
theorem built_on (b : EntryBuilder) (h0 : b.sampleIndex = 0) {i : Nat}
    (hi : i ≤ T.durations.length) :
    ∃ (c : EntryBuilder) (table : Nat → SampleTimeEntry), c.sampleIndex = i % 2^32 ∧
      (∀ m, (table m).mSampleIndex = m) ∧
      ∀ raw, ∃ es, T.built (b.on raw) i = c.on es ∧
        ∀ m < T.mNumSampleSizes.toNat, es m = if m < i then table m else raw m := by
  have hnum := T.mNumSampleSizes.isLt
  induction i with
  | zero =>
    exact ⟨b, fun m => ⟨m, 0⟩, h0, fun _ => rfl, fun raw => ⟨raw, rfl, fun m _ => rfl⟩⟩
  | succ i ih =>
    obtain ⟨c, table, hindex, htable, hmem⟩ := ih (Nat.le_of_succ_le hi)
    obtain ⟨c', e, he, hindex', hadd⟩ := addSample_on (T := T) c T.durations[i]
    refine ⟨c', Function.update table c.sampleIndex e, by omega, fun m => ?_, fun raw => ?_⟩
    · by_cases hm : m = c.sampleIndex
      · rw [hm, Function.update_self, he]
      · rw [Function.update_of_ne hm, htable]
    · obtain ⟨es, heq, hes⟩ := hmem raw
      refine ⟨_, by rw [built_succ _ hi, heq, hadd], fun m hm => ?_⟩
      by_cases hmc : m = c.sampleIndex
      · rw [if_pos (by omega), if_pos (by omega), hmc, Function.update_self, Function.update_self]
      · -- the cell of sample `i` is another one, unless it is beyond the table
        have hsame : (if c.sampleIndex < T.mNumSampleSizes.toNat then
            Function.update es c.sampleIndex e else es) m = es m := by
          split
          · exact Function.update_of_ne hmc _ _
          · rfl
        have hcells : m < i + 1 ↔ m < i := by omega
        rw [hsame, Function.update_of_ne hmc, hes m hm]
        simp only [hcells]

/-- The index that is built within the size limit, in memory with any contents. -/
theorem buildSampleEntriesTable_on {qsort : List SampleTimeEntry → List SampleTimeEntry}
    {t : TimeTable} (hfresh : t.mSampleTimeEntries = none) (hpos : 0 < T.mNumSampleSizes.toNat)
    (hsize : (t.mTotalSize + T.mNumSampleSizes.toNat * sizeofSampleTimeEntry) % 2^64 ≤ kMaxTotalSize) :
    ∃ (t' : TimeTable) (table : Nat → SampleTimeEntry), (∀ m, (table m).mSampleIndex = m) ∧
      ∀ raw, t.buildSampleEntriesTable T qsort (some raw) = { t' with
        mSampleTimeEntries := some (qsort ((List.range T.mNumSampleSizes.toNat).map fun m =>
          if m < T.describedSamples then table m else raw m)) } := by
  obtain ⟨c, table, -, htable, hmem⟩ :=
    built_on (T := T) { lookup := t.lookup, entries := fun m => ⟨m, 0⟩ } rfl le_rfl
  refine ⟨{ mTotalSize := (t.mTotalSize + T.mNumSampleSizes.toNat * sizeofSampleTimeEntry) % 2^64
            lookup := c.lookup }, table, htable, fun raw => ?_⟩
  obtain ⟨es, heq, hes⟩ := hmem raw
  have hstart : ¬(t.mSampleTimeEntries.isSome = true ∨ T.mNumSampleSizes.toNat = 0) := by
    rw [hfresh]
    simp [hpos.ne']
  have hloop : T.mTimeToSample.foldl (fun b e => T.addSamples e.duration.toNat e.count.toNat b)
      { lookup := t.lookup, entries := raw } = c.on es := by
    rw [foldl_addSamples, ← heq, SampleTable.built, List.take_length]
    rfl
  have hcells : (List.range T.mNumSampleSizes.toNat).map (c.on es).entries =
      (List.range T.mNumSampleSizes.toNat).map fun m =>
        if m < T.describedSamples then table m else raw m := by
    refine List.map_congr_left fun m hm => ?_
    rw [← durations_length]
    exact hes m (List.mem_range.mp hm)
  simp only [TimeTable.buildSampleEntriesTable, if_neg hstart, if_neg (Nat.not_lt.mpr hsize), hloop,
    hcells]
  rfl

/-- The memory behind a cell that is not written is sorted into the index. -/
theorem described_of_complete {qsort : List SampleTimeEntry → List SampleTimeEntry}
    (hperm : ∀ l, (qsort l).Perm l) {t : TimeTable} (hfresh : t.mSampleTimeEntries = none)
    (hsize : (t.mTotalSize + T.mNumSampleSizes.toNat * sizeofSampleTimeEntry) % 2^64 ≤ kMaxTotalSize)
    (h : ∀ raw, Complete T (t.buildSampleEntriesTable T qsort (some raw))) :
    T.mNumSampleSizes.toNat ≤ T.describedSamples := by
  by_contra hlt
  rw [Nat.not_le] at hlt
  obtain ⟨t', table, -, hbuild⟩ := buildSampleEntriesTable_on (T := T) hfresh (by omega) hsize
  -- every cell holds an index that no sample has
  have hc := (h fun _ => ⟨T.mNumSampleSizes.toNat, 0⟩).indices
  rw [hbuild, Option.getD_some] at hc
  have hcell : ⟨T.mNumSampleSizes.toNat, 0⟩ ∈
      (List.range T.mNumSampleSizes.toNat).map fun m =>
        if m < T.describedSamples then table m else ⟨T.mNumSampleSizes.toNat, 0⟩ := by
    refine List.mem_map.mpr ⟨T.describedSamples, List.mem_range.mpr hlt, ?_⟩
    rw [if_neg (lt_irrefl _)]
  have hmem : T.mNumSampleSizes.toNat ∈ List.range T.mNumSampleSizes.toNat :=
    hc.subset (List.mem_map.mpr ⟨_, (hperm _).mem_iff.mpr hcell, rfl⟩)
  exact absurd (List.mem_range.mp hmem) (lt_irrefl _)

theorem buildSampleEntriesTable_empty {qsort : List SampleTimeEntry → List SampleTimeEntry}
    {memory : Option (Nat → SampleTimeEntry)} (t : TimeTable) (h : T.mNumSampleSizes.toNat = 0) :
    t.buildSampleEntriesTable T qsort memory = t := by
  rw [TimeTable.buildSampleEntriesTable, if_pos (.inr h)]

/-- With a sample described for each cell the index is the same in any memory, and complete. -/
theorem complete_of_described {qsort : List SampleTimeEntry → List SampleTimeEntry}
    (hperm : ∀ l, (qsort l).Perm l)
    (hsort : ∀ l, (qsort l).Pairwise fun a b => a.mCompositionTime ≤ b.mCompositionTime)
    {t : TimeTable} (hfresh : t.mSampleTimeEntries = none)
    (hsize : (t.mTotalSize + T.mNumSampleSizes.toNat * sizeofSampleTimeEntry) % 2^64 ≤ kMaxTotalSize)
    (h : T.mNumSampleSizes.toNat ≤ T.describedSamples) :
    ∃ t', Complete T t' ∧ ∀ raw, t.buildSampleEntriesTable T qsort (some raw) = t' := by
  rcases Nat.eq_zero_or_pos T.mNumSampleSizes.toNat with h0 | hpos
  · refine ⟨t, ?_, fun raw => buildSampleEntriesTable_empty t h0⟩
    constructor
    · rw [hfresh, h0]
      exact .refl _
    · rw [hfresh]
      exact .nil
  · obtain ⟨t', table, htable, hbuild⟩ := buildSampleEntriesTable_on (T := T) hfresh hpos hsize
    have hcells : ∀ raw : Nat → SampleTimeEntry,
        ((List.range T.mNumSampleSizes.toNat).map fun m =>
          if m < T.describedSamples then table m else raw m) =
        (List.range T.mNumSampleSizes.toNat).map table := by
      refine fun raw => List.map_congr_left fun m hm => if_pos ?_
      exact Nat.lt_of_lt_of_le (List.mem_range.mp hm) h
    refine ⟨{ t' with
      mSampleTimeEntries := some (qsort ((List.range T.mNumSampleSizes.toNat).map table)) },
      ⟨?_, hsort _⟩, fun raw => by rw [hbuild, hcells]⟩
    have hindices : ((List.range T.mNumSampleSizes.toNat).map table).map (·.mSampleIndex) =
        List.range T.mNumSampleSizes.toNat := by
      rw [List.map_map]
      exact List.map_id'' htable _
    have hp := (hperm ((List.range T.mNumSampleSizes.toNat).map table)).map (·.mSampleIndex)
    rwa [hindices] at hp

/-- Within the size limit the index is complete, and no search depends on what the allocated
memory held, exactly if `stts` describes at least as many samples as `stsz` counts. -/
theorem timeIndex_complete_iff {qsort : List SampleTimeEntry → List SampleTimeEntry}
    (hperm : ∀ l, (qsort l).Perm l)
    (hsort : ∀ l, (qsort l).Pairwise fun a b => a.mCompositionTime ≤ b.mCompositionTime)
    {t : TimeTable} (hfresh : t.mSampleTimeEntries = none)
    (hsize : (t.mTotalSize + T.mNumSampleSizes.toNat * sizeofSampleTimeEntry) % 2^64 ≤ kMaxTotalSize) :
    (∀ raw, Complete T (t.buildSampleEntriesTable T qsort (some raw)) ∧
        ∀ raw' req_time scale_num scale_den flags,
          t.findSampleAtTime T qsort (some raw') req_time scale_num scale_den flags =
            t.findSampleAtTime T qsort (some raw) req_time scale_num scale_den flags) ↔
      T.mNumSampleSizes.toNat ≤ T.describedSamples := by
  constructor
  · intro hall
    exact described_of_complete hperm hfresh hsize fun raw => (hall raw).1
  · intro h raw
    obtain ⟨t', hc, hbuild⟩ := complete_of_described hperm hsort hfresh hsize h
    refine ⟨by rw [hbuild]; exact hc, fun raw' req_time scale_num scale_den flags => ?_⟩
    rw [TimeTable.findSampleAtTime, TimeTable.findSampleAtTime, hbuild, hbuild]

theorem sortByTime_sorted (entries : List SampleTimeEntry) :
    (sortByTime entries).Pairwise fun a b => a.mCompositionTime ≤ b.mCompositionTime := by
  have htotal : Std.Total fun a b : SampleTimeEntry => a.mCompositionTime ≤ b.mCompositionTime :=
    ⟨fun a b => Nat.le_total _ _⟩
  have htrans : IsTrans SampleTimeEntry fun a b => a.mCompositionTime ≤ b.mCompositionTime :=
    ⟨fun _ _ _ => Nat.le_trans⟩
  exact List.pairwise_insertionSort _ entries

theorem timeIndex_complete_iff_secondEarlier :
    Complete (secondEarlier 0) (TimeTable.buildSampleEntriesTable (secondEarlier 0) sortByTime
      (some fun _ => ⟨7, 7⟩) {}) :=
  ((timeIndex_complete_iff (List.perm_insertionSort _) sortByTime_sorted rfl (by decide)).mpr
    (by decide) _).1

/-- A file with one run of one sample of duration 10 in `stts`, and two samples in `stsz`. -/
def shortStts : SampleTable := { secondEarlier 0 with
  readAt offset size :=
    (([0, 0, 0, 0, 0, 0, 0, 1, 0, 0, 0, 1, 0, 0, 0, 10] : List (BitVec 8)).drop offset.toNat).take size
  mNumSampleSizes := 2
  mTimeToSample := [⟨1, 10⟩] }

/-- The second entry of the index is what the memory held, and a search returns it. -/
theorem timeIndex_reads_garbage :
    ∃ s, shortStts.setTimeToSampleParams true {} 0 16 = .ok s ∧
      s.mTimeToSample = shortStts.mTimeToSample ∧
      (TimeTable.buildSampleEntriesTable shortStts sortByTime (some fun _ => ⟨7, 7⟩)
        { mTotalSize := s.mTotalSize }).mSampleTimeEntries = some [⟨0, 0⟩, ⟨7, 7⟩] ∧
      (TimeTable.findSampleAtTime shortStts sortByTime (some fun _ => ⟨7, 7⟩)
        { mTotalSize := s.mTotalSize } 1 1 1 .kFlagFrameIndex).1 = some (.ok 7) :=
  ⟨_, rfl, by decide, by decide, by decide⟩

end MediaFramework.Mp4
