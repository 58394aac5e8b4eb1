import MediaFramework.Mp4.SampleHistory
import MediaFramework.Mp4.SampleTimes

/-!
# Sample location as the file format has it

`stsc`, `stco` and `stsz` as tables with one entry a chunk or a sample, and when a seek on a
fresh iterator finds a sample where these tables place it.
-/

namespace MediaFramework.Mp4

open RunLength

/-- The chunks of each `stsc` entry as a run, with the samples in each of them. The last entry
reaches to the end of `stco`. -/
def chunkRuns (numChunks : Nat) : List SampleToChunkEntry → List (Nat × Nat)
  | [] => []
  | e :: rest =>
    ((rest.head?.map fun next => next.startChunk.toNat).getD numChunks - e.startChunk.toNat,
      e.samplesPerChunk.toNat) :: chunkRuns numChunks rest

namespace SampleTable

variable (T : SampleTable)

/-- The number of samples in every chunk. -/
def chunkCounts : List Nat := expand (chunkRuns T.mNumChunkOffsets.toNat T.mSampleToChunkEntries)

/-- The offset of a chunk, if `stco` or `co64` can be read there. -/
def chunkOffset (c : Nat) : Option Nat :=
  match T.mChunkOffsetType with
  | .kChunkOffsetType32 => T.readNumber (T.mChunkOffsetOffset + 8 + 4 * c) 4
  | .kChunkOffsetType64 => T.readNumber (T.mChunkOffsetOffset + 8 + 8 * c) 8

/-- The size of a sample, if `stsz` or `stz2` can be read there. -/
def sampleSize (i : Nat) : Option Nat :=
  if 0 < T.mDefaultSampleSize.toNat then some T.mDefaultSampleSize.toNat
  else
    match T.mSampleSizeFieldSize with
    | .bits32 => T.readNumber (T.mSampleSizeOffset + 12 + 4 * i) 4
    | .bits16 => T.readNumber (T.mSampleSizeOffset + 12 + 2 * i) 2
    | .bits8 => T.readNumber (T.mSampleSizeOffset + 12 + i) 1
    | .bits4 =>
      (T.readNumber (T.mSampleSizeOffset + 12 + (i / 2 : Nat)) 1).map fun x =>
        if i % 2 = 1 then x % 16 else x / 16

end SampleTable

/-- A table whose parts are there, can be read and fit each other. -/
structure Conforming (T : SampleTable) : Prop where
  chunksPresent : 0 ≤ T.mChunkOffsetOffset
  runsPresent : 0 ≤ T.mSampleToChunkOffset
  sizesPresent : 0 ≤ T.mSampleSizeOffset
  increasing : T.mSampleToChunkEntries.Pairwise fun e e' => e.startChunk.toNat < e'.startChunk.toNat
  fromZero : ∀ e ∈ T.mSampleToChunkEntries.head?, e.startChunk.toNat = 0
  occupied : ∀ e ∈ T.mSampleToChunkEntries, 1 ≤ e.samplesPerChunk.toNat
  chunks : T.chunkCounts.length = T.mNumChunkOffsets.toNat
  samples : T.chunkCounts.sum = T.mNumSampleSizes.toNat
  /-- `setSampleSizeParams` refuses more samples. -/
  numSamples : T.mNumSampleSizes.toNat ≤ (UINT32_MAX - 12) / 16
  offsetsReadable : ∀ c < T.mNumChunkOffsets.toNat, (T.chunkOffset c).isSome = true
  sizesReadable : ∀ i < T.mNumSampleSizes.toNat, (T.sampleSize i).isSome = true

/-- The sample is where the format places sample `k`: in the chunk that is reached by counting
samples from chunk 0, after the chunk's earlier samples; and its time is the sum of the
durations before it and its composition offset. -/
def Placed (T : SampleTable) (k : Nat) (sample : Sample) : Prop :=
  (∃ c offset, (T.chunkCounts.take c).sum ≤ k ∧ k < (T.chunkCounts.take (c + 1)).sum ∧
    T.chunkOffset c = some offset ∧
    sample.offset = BitVec.ofNat 64 (offset +
      ((List.range' (T.chunkCounts.take c).sum (k - (T.chunkCounts.take c).sum)).map fun i =>
        (T.sampleSize i).getD 0).sum)) ∧
  (sample.time : Int) = T.decodeTime k + T.compositionOffset k

variable {T : SampleTable} {k : Nat} {r : ChunkRange}

/-! ### The chunk of a sample -/

/-- `k` is in chunk `start + j` of range `r`, where the chunks from `start` on have the given
numbers of samples, the first of which is sample `base`. -/
structure InChunk (counts : List Nat) (base start k : Nat) (r : ChunkRange) (j : Nat) : Prop where
  number : chunkNumber r k = start + j
  samplesPerChunk : r.mSamplesPerChunk = counts.getD j 0
  first : r.mFirstChunkSampleIndex +
    r.mSamplesPerChunk * ((k - r.mFirstChunkSampleIndex) / r.mSamplesPerChunk) =
      base + (counts.take j).sum
  le : base + (counts.take j).sum ≤ k
  lt : k < base + (counts.take (j + 1)).sum

theorem InChunk.shift {runs : List (Nat × Nat)} {m p base start j : Nat}
    (h : InChunk (expand runs) (base + m * p) (start + m) k r j) :
    InChunk (expand ((m, p) :: runs)) base start k r (m + j) := by
  have hsum := sum_take_expand_of_ge (Nat.le_add_right m j) p runs
  have hsum' := sum_take_expand_of_ge (Nat.le_add_right m (j + 1)) p runs
  rw [Nat.add_sub_cancel_left] at hsum hsum'
  have hfirst := h.first
  have hle := h.le
  have hlt := h.lt
  refine ⟨by rw [h.number, Nat.add_assoc], ?_, by omega, by omega, ?_⟩
  · rw [getD_expand_of_ge (Nat.le_add_right m j), Nat.add_sub_cancel_left]
    exact h.samplesPerChunk
  · rw [Nat.add_assoc m j 1]
    omega

theorem inChunk_of_lt {runs : List (Nat × Nat)} {m p base start : Nat} (hp : 0 < p)
    (hle : base ≤ k) (hlt : k < base + m * p) (hfirst : r.mFirstChunkSampleIndex = base)
    (hchunk : r.mFirstChunk = start) (hspc : r.mSamplesPerChunk = p) :
    InChunk (expand ((m, p) :: runs)) base start k r ((k - base) / p) := by
  subst hfirst hchunk hspc
  have hj : (k - r.mFirstChunkSampleIndex) / r.mSamplesPerChunk < m :=
    (Nat.div_lt_iff_lt_mul hp).mpr (by omega)
  have hsum := sum_take_expand_of_le (Nat.le_of_lt hj) r.mSamplesPerChunk runs
  have hsum' := sum_take_expand_of_le hj r.mSamplesPerChunk runs
  have hdm := Nat.div_add_mod (k - r.mFirstChunkSampleIndex) r.mSamplesPerChunk
  have hmod := Nat.mod_lt (k - r.mFirstChunkSampleIndex) hp
  rw [Nat.succ_mul] at hsum'
  rw [Nat.mul_comm] at hdm
  refine ⟨Nat.add_comm _ _, (getD_expand_of_lt hj _ _ _).symm, ?_, ?_, ?_⟩
  · rw [hsum, Nat.mul_comm]
  · rw [hsum]
    omega
  · rw [hsum']
    omega

/-- The scan stops in the range of the chunk that holds the sample. -/
theorem find_inChunk (numChunks : Nat) (rest : List SampleToChunkEntry) (e : SampleToChunkEntry)
    (c : ChunkRange)
    (hinc : (e :: rest).Pairwise fun e e' => e.startChunk.toNat < e'.startChunk.toNat)
    (hpos : ∀ e' ∈ e :: rest, 1 ≤ e'.samplesPerChunk.toNat) (hle : c.mStopChunkSampleIndex ≤ k)
    (hlt : k < c.mStopChunkSampleIndex + (expand (chunkRuns numChunks (e :: rest))).sum)
    (hmax : c.mStopChunkSampleIndex + (expand (chunkRuns numChunks (e :: rest))).sum ≤ UINT32_MAX) :
    ∃ r j, c.find k (e :: rest) = (.OK, r) ∧
      InChunk (expand (chunkRuns numChunks (e :: rest))) c.mStopChunkSampleIndex
        e.startChunk.toNat k r j := by
  have hM : UINT32_MAX = 2^32 - 1 := rfl
  -- by induction on the entries after the one to load, with the samples before it as the base
  induction rest generalizing e c with
  | nil =>
    have hp := hpos e List.mem_cons_self
    obtain ⟨c', hload⟩ := load_succeeds [] c hp (fun _ h => by cases h)
    obtain ⟨-, hfirst, hchunk, hspc, hstop⟩ := load_ok hload
    rw [chunkRuns, chunkRuns, sum_expand_cons, expand_nil, List.sum_nil] at hlt hmax
    refine ⟨c', _, ?_, inChunk_of_lt hp hle hlt hfirst hchunk hspc⟩
    -- the last range is open, but the samples of its chunks end below `UINT32_MAX`
    have hk : k < c'.mStopChunkSampleIndex := by
      simp only [List.head?_nil] at hstop
      omega
    rw [ChunkRange.find, if_neg (Nat.not_lt.mpr hle), hload]
    exact ChunkRange.find_of_lt hk []
  | cons next rest ih =>
    have hp := hpos e List.mem_cons_self
    obtain ⟨he, hinc'⟩ := List.pairwise_cons.mp hinc
    have hnext := he next List.mem_cons_self
    rw [chunkRuns, sum_expand_cons, List.head?_cons, Option.map_some, Option.getD_some] at hlt hmax
    obtain ⟨c', hload⟩ := load_succeeds (next :: rest) c hp (fun _ h => by
      cases h
      exact ⟨Nat.le_of_lt hnext, by omega⟩)
    obtain ⟨-, hfirst, hchunk, hspc, hstop, -, -, hend, -⟩ := load_ok hload
    rw [hstop, hchunk, hspc, hfirst] at hend
    rw [chunkRuns, List.head?_cons, Option.map_some, Option.getD_some, ChunkRange.find,
      if_neg (Nat.not_lt.mpr hle), hload]
    rcases Nat.lt_or_ge k c'.mStopChunkSampleIndex with hk | hk
    · exact ⟨c', _, ChunkRange.find_of_lt hk _,
        inChunk_of_lt hp hle (by omega) hfirst hchunk hspc⟩
    · obtain ⟨r, j, hfind, hin⟩ := ih next c' hinc'
        (fun e' h => hpos e' (List.mem_cons_of_mem e h)) hk (by omega) (by omega)
      refine ⟨r, _, hfind, InChunk.shift (j := j) ?_⟩
      rw [hend] at hin
      rw [Nat.add_sub_cancel' (Nat.le_of_lt hnext)]
      exact hin

/-! ### Reading the tables -/

namespace Conforming

theorem numSamples_lt (h : Conforming T) : T.mNumSampleSizes.toNat < 2^28 := by
  have hnum := h.numSamples
  have hM : UINT32_MAX = 2^32 - 1 := rfl
  omega

/-- There are no more chunks than samples. -/
theorem numChunks_le (h : Conforming T) :
    T.mNumChunkOffsets.toNat ≤ T.mNumSampleSizes.toNat := by
  rw [← h.chunks, ← h.samples]
  apply List.length_le_sum_of_one_le
  intro n hn
  obtain ⟨run, hrun, hn⟩ := List.mem_flatMap.mp hn
  rw [List.eq_of_mem_replicate hn]
  have hocc := h.occupied
  generalize T.mSampleToChunkEntries = es at hocc hrun
  induction es with
  | nil => cases hrun
  | cons e es ih =>
    rcases List.mem_cons.mp hrun with rfl | hrun
    · exact hocc e List.mem_cons_self
    · exact ih (fun e' he' => hocc e' (List.mem_cons_of_mem e he')) hrun

/-- Chunk numbers are small enough for the 32-bit products in the code. -/
theorem getChunkOffset (h : Conforming T) {c : Nat} (hc : c < T.mNumChunkOffsets.toNat) :
    ∃ offset, T.chunkOffset c = some offset ∧ T.getChunkOffset c = .ok (BitVec.ofNat 64 offset) := by
  have hnum := h.numSamples_lt
  have hchunks := h.numChunks_le
  obtain ⟨offset, hoff⟩ := Option.isSome_iff_exists.mp (h.offsetsReadable c hc)
  refine ⟨offset, hoff, ?_⟩
  rw [SampleTable.chunkOffset] at hoff
  rw [SampleTable.getChunkOffset, if_neg (Nat.not_le.mpr hc), Nat.mod_eq_of_lt (by omega),
    Nat.mod_eq_of_lt (by omega)]
  push_cast
  cases htype : T.mChunkOffsetType <;> simp only [htype] at hoff
  all_goals simp only [hoff]

theorem getSampleSizeDirect (h : Conforming T) {i : Nat} (hi : i < T.mNumSampleSizes.toNat) :
    T.getSampleSizeDirect i = .ok ((T.sampleSize i).getD 0) := by
  have hnum := h.numSamples_lt
  obtain ⟨size, hsize⟩ := Option.isSome_iff_exists.mp (h.sizesReadable i hi)
  rw [hsize, Option.getD_some]
  rw [SampleTable.sampleSize] at hsize
  rw [SampleTable.getSampleSizeDirect, if_neg (Nat.not_le.mpr hi)]
  split at hsize
  · next hd =>
    rw [if_pos hd, Option.some.inj hsize]
  · next hd =>
    rw [if_neg hd, Nat.mod_eq_of_lt (by omega), Nat.mod_eq_of_lt (by omega)]
    push_cast at hsize ⊢
    cases hwidth : T.mSampleSizeFieldSize <;> simp only [hwidth] at hsize
    all_goals simp only [hsize]

theorem readSampleSizes (h : Conforming T) {first n : Nat}
    (hle : first + n ≤ T.mNumSampleSizes.toNat) :
    Seeker.readSampleSizes T first n =
      .ok ((List.range' first n).map fun i => (T.sampleSize i).getD 0) := by
  have hnum := h.numSamples_lt
  induction n generalizing first with
  | zero => rfl
  | succ n ih =>
    rw [Seeker.readSampleSizes, Nat.mod_eq_of_lt (by omega), h.getSampleSizeDirect (by omega)]
    simp only
    rw [ih (by omega), List.range'_succ, List.map_cons]
    rfl

/-- The chunk of a sample can be read, and all of its samples have sizes. -/
theorem chunk (h : Conforming T) (hk : k < T.mNumSampleSizes.toNat) :
    ∃ r c offset, T.rangeOf k = (.OK, r) ∧ r.mSamplesPerChunk ≠ 0 ∧
      (T.chunkCounts.take c).sum ≤ k ∧ k < (T.chunkCounts.take (c + 1)).sum ∧
      (k - r.mFirstChunkSampleIndex) % r.mSamplesPerChunk = k - (T.chunkCounts.take c).sum ∧
      T.chunkOffset c = some offset ∧
      T.getChunkOffset (Seeker.chunkOf r k) = .ok (BitVec.ofNat 64 offset) ∧
      T.chunkSizes r k = .ok ((List.range' (T.chunkCounts.take c).sum r.mSamplesPerChunk).map
        fun i => (T.sampleSize i).getD 0) := by
  have hsum := h.samples
  have hM : UINT32_MAX = 2^32 - 1 := rfl
  have hnum := h.numSamples_lt
  obtain ⟨r, c, hrange, hin⟩ : ∃ r c, T.rangeOf k = (.OK, r) ∧ InChunk T.chunkCounts 0 0 k r c := by
    have hinc := h.increasing
    have hocc := h.occupied
    have hzero := h.fromZero
    rw [SampleTable.rangeOf, SampleTable.chunkCounts]
    rw [SampleTable.chunkCounts] at hsum
    generalize T.mSampleToChunkEntries = es at hinc hocc hzero hsum
    cases es with
    | nil =>
      rw [chunkRuns, expand_nil, List.sum_nil] at hsum
      omega
    | cons e rest =>
      have hfind := find_inChunk T.mNumChunkOffsets.toNat rest e {} hinc hocc (Nat.zero_le k)
        (by simp only; omega) (by simp only; omega)
      rw [hzero e rfl] at hfind
      exact hfind
  have hle : (T.chunkCounts.take c).sum ≤ k := by simpa using hin.le
  have hlt : k < (T.chunkCounts.take (c + 1)).sum := by simpa using hin.lt
  have hfirst := hin.first
  -- past the last chunk both sums would be the number of samples
  have hc : c < T.chunkCounts.length := by
    by_contra hge
    rw [List.take_of_length_le (by omega)] at hle hlt
    omega
  have hspc : r.mSamplesPerChunk = T.chunkCounts[c] := by
    rw [hin.samplesPerChunk, List.getD_eq_getElem _ _ hc]
  have hnext := List.sum_take_succ T.chunkCounts c hc
  have htotal : (T.chunkCounts.take (c + 1)).sum ≤ T.chunkCounts.sum := by
    conv_rhs => rw [← List.take_append_drop (c + 1) T.chunkCounts, List.sum_append]
    exact Nat.le_add_right _ _
  have hchunk : Seeker.chunkOf r k = c := by
    have hnumber := hin.number
    have hlt' := T.mNumChunkOffsets.isLt
    have hlen := h.chunks
    change chunkNumber r k % 2^32 = c
    omega
  obtain ⟨_, -, -, hr, -⟩ := rangeOf_spec hrange
  obtain ⟨offset, hoff, hget⟩ := h.getChunkOffset (h.chunks ▸ hc)
  have hdm := Nat.div_add_mod (k - r.mFirstChunkSampleIndex) r.mSamplesPerChunk
  refine ⟨r, c, offset, hrange, by omega, hle, hlt, by omega, hoff, ?_, ?_⟩
  · rw [hchunk]
    exact hget
  · rw [SampleTable.chunkSizes, firstSampleOf_chunkOf hrange (by omega), hfirst, Nat.zero_add]
    exact h.readSampleSizes (by omega)

end Conforming

theorem foldl_add_ofNat (sizes : List Nat) (offset : Nat) :
    sizes.foldl (fun offset size => offset + BitVec.ofNat 64 size) (BitVec.ofNat 64 offset) =
      BitVec.ofNat 64 (offset + sizes.sum) := by
  induction sizes generalizing offset with
  | nil => simp
  | cons size sizes ih =>
    rw [List.foldl_cons, ← BitVec.ofNat_add, ih, List.sum_cons, Nat.add_assoc]

/-- The offset of a sample in a chunk that starts with sample `first`. -/
theorem placed_range' {offset first n relative : Nat} {size : Nat → Nat} (h : relative ≤ n) :
    (placed (BitVec.ofNat 64 offset) ((List.range' first n).map size) relative).1 =
      BitVec.ofNat 64 (offset + ((List.range' first relative).map size).sum) := by
  rw [placed, ← List.map_take, List.take_range'_of_length_ge h]
  exact foldl_add_ofNat _ _

/-- A seek into a conforming table depends on the time of the sample only. -/
theorem Conforming.sampleAt (h : Conforming T) (hk : k < T.mNumSampleSizes.toNat)
    (hstts : k < T.durations.length) :
    (T.timeOf k = none → T.sampleAt k = .error .ERROR_OUT_OF_RANGE) ∧
    ∀ p, T.timeOf k = some p → ∃ sample, T.sampleAt k = .ok sample ∧ sample.time = p.1 ∧
      (Placed T k sample ↔ (p.1 : Int) = T.decodeTime k + T.compositionOffset k) := by
  obtain ⟨r, c, offset, hr, h0, hle, hlt, hrel, hoff, hget, hsizes⟩ := h.chunk hk
  have hinc : ¬T.Incomplete := by
    rintro (hneg | hneg | hneg | hempty)
    · exact absurd h.runsPresent (by omega)
    · exact absurd h.chunksPresent (by omega)
    · exact absurd h.sizesPresent (by omega)
    · rw [SampleTable.durations, SampleTable.timeRuns, List.length_eq_zero_iff.mp hempty] at hstts
      exact absurd hstts (Nat.not_lt_zero k)
  have hsample := sampleAt_of_chunk hk hinc hr h0 hget hsizes
  have hmod := Nat.mod_lt (k - r.mFirstChunkSampleIndex) (Nat.pos_of_ne_zero h0)
  rw [List.length_map, List.length_range', hrel] at hsample
  rw [hrel] at hmod
  refine ⟨fun ht => ?_, fun p ht => ⟨_, by rw [hsample, ht], rfl, fun hp => hp.2, fun htime => ?_⟩⟩
  · rw [hsample, ht]
  · exact ⟨⟨c, offset, hle, hlt, hoff, placed_range' (Nat.le_of_lt hmod)⟩, htime⟩

/-- On a fresh iterator, over a table that any lookups have gone through before, a seek finds
a sample where the format places it unless its composition offset is `INT32_MIN` or its run of
durations ends beyond the 32-bit sample numbers. -/
theorem seekTo_placed_iff (h : Conforming T) {l : CompositionDeltaLookup} (hl : l.Parked T)
    (hk : k < T.mNumSampleSizes.toNat) (hstts : k < T.durations.length)
    (hfit : 0 ≤ (T.decodeTime k : Int) + T.compositionOffset k ∧
      (T.decodeTime k : Int) + T.compositionOffset k ≤ UINT64_MAX) :
    (∃ s, Seeker.seekTo T { lookup := l } k = some (.OK, s) ∧ Placed T k s.it.sample) ↔
      T.compositionOffset k ≠ INT32_MIN ∧ T.timeRunEnd k ≤ UINT32_MAX := by
  have hk' : k < 2^32 := Nat.lt_trans hk T.mNumSampleSizes.isLt
  have hbound := decodeTime_lt T hk'
  obtain ⟨⟨status, s⟩, hseek, hout, -⟩ := seekTo_spec (Ordered.fresh_of_parked hl) k
  obtain ⟨hnone, hsome⟩ := h.sampleAt hk hstts
  have htime := timeOf_eq T hk'
  rw [hseek]
  -- the offset is right for every sample that is found, so all turns on the time
  constructor
  · rintro ⟨s', hs', hplaced⟩
    cases hs'
    cases ht : T.timeOf k with
    | none =>
      rw [hnone ht] at hout
      cases hout
    | some p =>
      obtain ⟨sample, hsample, -, hiff⟩ := hsome p ht
      obtain ⟨-, rfl⟩ := outcome_eq_ok (hout.trans hsample)
      have hp := hiff.mp hplaced
      rw [ht] at htime
      split at htime
      · next hc =>
        obtain ⟨time, hcomp, rfl⟩ := Option.map_eq_some_iff.mp htime.symm
        exact ⟨fun hmin => compositionTime_min hbound hmin hcomp hp, hc.2⟩
      · cases htime
  · rintro ⟨hmin, hend⟩
    have hcomp : compositionTime (T.decodeTime k) (T.deltas.getD k 0) =
        some ((T.decodeTime k : Int) + T.compositionOffset k).toNat := by
      rw [compositionTime_eq hbound hmin]
      exact if_pos hfit.1
    rw [if_pos ⟨hstts, hend⟩, hcomp, Option.map_some] at htime
    obtain ⟨sample, hsample, -, hiff⟩ := hsome _ htime
    obtain ⟨rfl, rfl⟩ := outcome_eq_ok (hout.trans hsample)
    exact ⟨s, rfl, hiff.mpr (Int.toNat_of_nonneg hfit.1)⟩

/-- Two samples in the chunk at offset 100 and one in the chunk at offset 200, each lasting
`2^31`; the composition offset of the last one is given. -/
def threeSamples (delta : BitVec 32) : SampleTable where
  readAt offset _ := if offset = 8 then [0, 0, 0, 100] else if offset = 12 then [0, 0, 0, 200] else []
  mChunkOffsetOffset := 0
  mChunkOffsetType := .kChunkOffsetType32
  mNumChunkOffsets := 2
  mSampleToChunkOffset := 0
  mSampleToChunkEntries := [⟨0, 2, 1⟩, ⟨1, 1, 1⟩]
  mSampleSizeOffset := 0
  mSampleSizeFieldSize := .bits32
  mDefaultSampleSize := 10
  mNumSampleSizes := 3
  mTimeToSample := [⟨3, 0x80000000⟩]
  mCompositionTimeDeltaEntries := [⟨2, 0⟩, ⟨1, delta⟩]

theorem threeSamples_conforming (delta : BitVec 32) : Conforming (threeSamples delta) where
  chunksPresent := Int.le_refl 0
  runsPresent := Int.le_refl 0
  sizesPresent := Int.le_refl 0
  increasing := List.pairwise_pair.mpr Nat.zero_lt_one
  fromZero := by
    rintro e ⟨⟩
    rfl
  occupied := by
    intro e he
    rcases List.mem_pair.mp he with rfl | rfl <;> decide
  chunks := rfl
  samples := rfl
  numSamples := show 3 ≤ (UINT32_MAX - 12) / 16 by decide
  offsetsReadable
    | 0, _ => rfl
    | 1, _ => rfl
  sizesReadable := fun _ _ => rfl

theorem seekTo_placed_iff_threeSamples :
    Conforming (threeSamples 7) ∧
      ∃ s, Seeker.seekTo (threeSamples 7) {} 2 = some (.OK, s) ∧
        Placed (threeSamples 7) 2 s.it.sample := by
  refine ⟨threeSamples_conforming 7, ?_⟩
  exact (seekTo_placed_iff (threeSamples_conforming 7) ⟨_, .start⟩ (by decide) (by decide)
    (by decide)).mpr (by decide)

/-- A composition offset of `INT32_MIN` is taken for one of `-INT64_MAX`: the seek fails
although the time is `2^32 - 2^31`. -/
theorem seekTo_refuses_least_offset :
    Conforming (threeSamples 0x80000000) ∧ 2 < (threeSamples 0x80000000).durations.length ∧
      ((threeSamples 0x80000000).decodeTime 2 : Int) +
        (threeSamples 0x80000000).compositionOffset 2 = 2^31 ∧
      (Seeker.seekTo (threeSamples 0x80000000) {} 2).map outcome =
        some (.error .ERROR_OUT_OF_RANGE) := by
  exact ⟨threeSamples_conforming _, by decide, by decide, by decide⟩

end MediaFramework.Mp4
