import MediaFramework.Mp4.SampleScan

/-!
# Sample lookup without a history

`SampleTable.sampleAt` is what a seek on a fresh iterator finds, as a function of the
table alone: the range of chunks, the chunk's offset and sizes, and the time.
-/

namespace MediaFramework.Mp4

open Status

/-- What a successful seek produces. -/
structure Sample where
  offset : BitVec 64
  size : Nat
  time : Nat
  duration : Nat
  deriving DecidableEq, Repr

namespace SampleTable

variable (T : SampleTable)

/-- The time and duration of a sample. -/
def timeOf (k : Nat) : Option (Nat × Nat) :=
  match TimeRun.find k T.mTimeToSample {} with
  | (true, run) => (run.decodeTime k).bind fun time =>
    (compositionTime time (T.deltaOf k)).map (·, run.mTTSDuration)
  | (false, _) => none

/-- The sizes of the samples of a sample's chunk, fewer if `stsz` ends before. -/
def chunkSizes (r : ChunkRange) (k : Nat) : Except Status (List Nat) :=
  Seeker.readSampleSizes T (Seeker.firstSampleOf r (Seeker.chunkOf r k)) r.mSamplesPerChunk

/-- The sample as a seek on a fresh iterator finds it. -/
def sampleAt (k : Nat) : Except Status Sample :=
  if T.mNumSampleSizes.toNat ≤ k then .error .ERROR_END_OF_STREAM
  else if T.Incomplete then .error .ERROR_MALFORMED
  else
    match T.rangeOf k with
    | (.OK, r) =>
      if r.mSamplesPerChunk = 0 then .error .ERROR_MALFORMED
      else
        match T.getChunkOffset (Seeker.chunkOf r k), T.chunkSizes r k with
        | .error err, _ => .error err
        | .ok _, .error err => .error err
        | .ok offset, .ok sizes =>
          match T.timeOf k with
          | none => .error .ERROR_OUT_OF_RANGE
          | some (time, duration) =>
            let relative := (k - r.mFirstChunkSampleIndex) % sizes.length
            .ok ⟨(sizes.take relative).foldl (fun offset size => offset + BitVec.ofNat 64 size) offset,
              sizes.getD relative 0, time, duration⟩
    | (err, _) => .error err

end SampleTable

variable {T : SampleTable} {k : Nat} {r c : ChunkRange}

/-! ### Sample sizes of a chunk -/

theorem getSampleSizeDirect_error {i : Nat} {err : Status} (h : T.getSampleSizeDirect i = .error err) :
    err = .ERROR_OUT_OF_RANGE ∧ T.mNumSampleSizes.toNat ≤ i ∨ err = ERROR_IO := by
  simp only [SampleTable.getSampleSizeDirect] at h
  split at h
  · next hle =>
    cases h
    exact .inl ⟨rfl, hle⟩
  split at h
  · cases h
  split at h
  · cases h
    exact .inr rfl
  · cases h

theorem getSampleSizeDirect_ok {i size : Nat} (h : T.getSampleSizeDirect i = .ok size) :
    i < T.mNumSampleSizes.toNat := by
  simp only [SampleTable.getSampleSizeDirect] at h
  split at h
  · cases h
  · next hlt => exact Nat.not_le.mp hlt

theorem getChunkOffset_error {chunk : Nat} {err : Status} (h : T.getChunkOffset chunk = .error err) :
    err ≠ .OK := by
  rintro rfl
  simp only [SampleTable.getChunkOffset] at h
  split at h
  · cases h
  split at h
  · cases h
  · cases h

theorem readSampleSizes_error {first n : Nat} {err : Status}
    (h : Seeker.readSampleSizes T first n = .error err) : err ≠ .OK := by
  induction n generalizing first with
  | zero => cases h
  | succ n ih =>
    rw [Seeker.readSampleSizes] at h
    cases hs : T.getSampleSizeDirect (first % 2^32) with
    | error err' =>
      rcases getSampleSizeDirect_error hs with ⟨rfl, -⟩ | rfl
      · rw [hs] at h
        cases h
      · rw [hs] at h
        cases h
        decide
    | ok size =>
      rw [hs] at h
      cases hr : Seeker.readSampleSizes T (first + 1) n with
      | error err' =>
        rw [hr] at h
        cases h
        exact ih hr
      | ok sizes =>
        rw [hr] at h
        cases h

/-- The sizes read are those of the chunk, cut at the end of `stsz`. -/
theorem readSampleSizes_length {first n : Nat} {sizes : List Nat}
    (h : Seeker.readSampleSizes T first n = .ok sizes) (hf : first ≤ T.mNumSampleSizes.toNat) :
    sizes.length = min n (T.mNumSampleSizes.toNat - first) := by
  have hnum := T.mNumSampleSizes.isLt
  induction n generalizing first sizes with
  | zero =>
    cases h
    simp
  | succ n ih =>
    rw [Seeker.readSampleSizes, Nat.mod_eq_of_lt (by omega)] at h
    cases hs : T.getSampleSizeDirect first with
    | error err' =>
      rw [hs] at h
      rcases getSampleSizeDirect_error hs with ⟨rfl, hle⟩ | rfl
      · cases h
        simp only [List.length_nil]
        omega
      · cases h
    | ok size =>
      have hlt := getSampleSizeDirect_ok hs
      rw [hs] at h
      cases hr : Seeker.readSampleSizes T (first + 1) n with
      | error err' =>
        rw [hr] at h
        cases h
      | ok sizes' =>
        rw [hr] at h
        cases h
        rw [List.length_cons, ih hr (by omega)]
        omega

theorem firstSampleOf_chunkOf (h : T.rangeOf k = (.OK, r)) (hk : k < 2^32) :
    Seeker.firstSampleOf r (Seeker.chunkOf r k) = r.mFirstChunkSampleIndex +
      r.mSamplesPerChunk * ((k - r.mFirstChunkSampleIndex) / r.mSamplesPerChunk) := by
  obtain ⟨rest, -, hl, hle, -⟩ := rangeOf_spec h
  have hlt := hl.chunk_lt
  have hq := Nat.div_le_self (k - r.mFirstChunkSampleIndex) r.mSamplesPerChunk
  have hmul := Nat.mul_div_le (k - r.mFirstChunkSampleIndex) r.mSamplesPerChunk
  rw [Seeker.firstSampleOf, Seeker.chunkOf]
  generalize (k - r.mFirstChunkSampleIndex) / r.mSamplesPerChunk = q at hq hmul
  have hwrap : ((q + r.mFirstChunk) % 2^32 + 2^32 - r.mFirstChunk) % 2^32 = q := by omega
  rw [hwrap, Nat.mod_eq_of_lt (by omega)]

/-- A chunk that `stsz` covers, or the first chunk of its range. -/
def Uncut (T : SampleTable) (r : ChunkRange) (k : Nat) : Prop :=
  Seeker.firstSampleOf r (Seeker.chunkOf r k) + r.mSamplesPerChunk ≤ T.mNumSampleSizes.toNat ∨
    k < r.mFirstChunkSampleIndex + r.mSamplesPerChunk

instance : Decidable (Uncut T r k) := inferInstanceAs (Decidable (_ ∨ _))

/-- The number of sizes of a chunk and the place of a sample among them. -/
theorem chunkSizes_spec {sizes : List Nat} (h : T.rangeOf k = (.OK, r))
    (hk : k < T.mNumSampleSizes.toNat) (h0 : r.mSamplesPerChunk ≠ 0)
    (hs : T.chunkSizes r k = .ok sizes) :
    0 < sizes.length ∧ sizes.length ≤ r.mSamplesPerChunk ∧
      (Uncut T r k → (k - r.mFirstChunkSampleIndex) % r.mSamplesPerChunk < sizes.length ∧
        (k - r.mFirstChunkSampleIndex) % sizes.length =
          (k - r.mFirstChunkSampleIndex) % r.mSamplesPerChunk ∧
        (sizes.length = r.mSamplesPerChunk ∨
          r.mFirstChunkSampleIndex + sizes.length = T.mNumSampleSizes.toNat ∧
            k < r.mFirstChunkSampleIndex + r.mSamplesPerChunk)) := by
  obtain ⟨rest, -, -, hle, -⟩ := rangeOf_spec h
  have hnum := T.mNumSampleSizes.isLt
  have hfirst := firstSampleOf_chunkOf h (by omega)
  have hmul := Nat.mul_div_le (k - r.mFirstChunkSampleIndex) r.mSamplesPerChunk
  have hdm := Nat.div_add_mod (k - r.mFirstChunkSampleIndex) r.mSamplesPerChunk
  have hlen := readSampleSizes_length hs (by rw [hfirst]; omega)
  have hmod := Nat.mod_lt (k - r.mFirstChunkSampleIndex) (Nat.pos_of_ne_zero h0)
  refine ⟨by omega, by omega, fun hu => ?_⟩
  rw [Uncut] at hu
  rcases hu with hu | hu
  · have heq : sizes.length = r.mSamplesPerChunk := by omega
    rw [heq]
    exact ⟨hmod, rfl, .inl rfl⟩
  · -- in the first chunk of the range the place is the distance from the range's start
    have hq : (k - r.mFirstChunkSampleIndex) / r.mSamplesPerChunk = 0 :=
      Nat.div_eq_of_lt (by omega)
    rw [hq, Nat.mul_zero] at hfirst hdm
    rw [hfirst] at hlen
    have hr : (k - r.mFirstChunkSampleIndex) % sizes.length = k - r.mFirstChunkSampleIndex :=
      Nat.mod_eq_of_lt (by omega)
    rw [hr]
    refine ⟨by omega, by omega, ?_⟩
    omega

end MediaFramework.Mp4
