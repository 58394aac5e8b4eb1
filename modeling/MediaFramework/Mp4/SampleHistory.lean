import MediaFramework.Lib.Machine
import MediaFramework.Mp4.SampleLookup

/-!
# Seeking after other seeks

An iterator in good order finds what a fresh one finds, and stays in good order unless a
seek fails between its cache updates or cuts a chunk inside a range of chunks.
-/

namespace MediaFramework.Mp4

variable {T : SampleTable} {k cur : Nat} {r c : ChunkRange}

/-! ### The current range -/

/-- `c` is the range `r`, up to a number of samples per chunk that was cut because `stsz`
ends in the first chunk of the range, which is then the current chunk. -/
def Agrees (T : SampleTable) (cur : Nat) (r c : ChunkRange) : Prop :=
  c = r ∨ ∃ n, c = { r with mSamplesPerChunk := n } ∧ 0 < n ∧ n < r.mSamplesPerChunk ∧
    r.mFirstChunkSampleIndex + n = T.mNumSampleSizes.toNat ∧ cur = r.mFirstChunk

/-- A range that seeks leave behind. After a failed search it may be empty. -/
def ChunkRange.Parked (T : SampleTable) (cur : Nat) (c : ChunkRange) : Prop :=
  ∃ rest c₁, rangeScan.Reached T.mSampleToChunkEntries {} rest c₁ ∧
    c.mSampleToChunkIndex = c₁.mSampleToChunkIndex ∧
    c.mStopChunkSampleIndex = c₁.mStopChunkSampleIndex ∧
    c₁.mFirstChunkSampleIndex ≤ c.mFirstChunkSampleIndex ∧
    (c.mFirstChunkSampleIndex < c.mStopChunkSampleIndex → Agrees T cur c₁ c)

theorem rangeScan_inv_start : rangeScan.inv {} := ⟨Nat.le_refl 0, Nat.zero_le _⟩

theorem Agrees.parked {rest : List SampleToChunkEntry}
    (hr : rangeScan.Reached T.mSampleToChunkEntries {} rest r) (h : Agrees T cur r c) :
    c.Parked T cur := by
  refine ⟨rest, r, hr, ?_⟩
  rcases h with rfl | ⟨n, rfl, hn⟩
  · exact ⟨rfl, rfl, Nat.le_refl _, fun _ => .inl rfl⟩
  · exact ⟨rfl, rfl, Nat.le_refl _, fun _ => .inr ⟨n, rfl, hn⟩⟩

theorem rangeOf_parked (T : SampleTable) (k cur : Nat) : (T.rangeOf k).2.Parked T cur := by
  rw [SampleTable.rangeOf, range_find_eq]
  obtain ⟨rest, c, hr, -, hs⟩ := rangeScan.run_stops T.mSampleToChunkEntries {} (Nat.zero_le k)
  generalize rangeScan.run k T.mSampleToChunkEntries {} = res at hs
  cases hs with
  | last => exact Agrees.parked hr (.inl rfl)
  | here hn =>
    simp only [rangeScan] at hn
    split at hn
    · cases hn
      exact Agrees.parked hr (.inl rfl)
    · split at hn
      · next hl =>
        -- a range that could not be loaded starts and ends where the one before ended
        cases hn
        obtain ⟨hidx, hstop, hfirst⟩ := load_error hl
        refine ⟨_, c, hr, hidx, hstop, ?_, fun hlt => ?_⟩
        · rw [hfirst]
          exact (hr.inv rangeScan rangeScan_inv_start).1
        · rw [hfirst, hstop] at hlt
          exact absurd hlt (Nat.lt_irrefl _)
      · cases hn

/-- Searching on from a parked range gives what searching from the start gives. -/
theorem find_parked (h : c.Parked T cur) (hk : c.mFirstChunkSampleIndex ≤ k) :
    (c.find k (T.mSampleToChunkEntries.drop c.mSampleToChunkIndex)).1 = (T.rangeOf k).1 ∧
      (c.find k (T.mSampleToChunkEntries.drop c.mSampleToChunkIndex)).2.Parked T cur ∧
      ∀ r, T.rangeOf k = (.OK, r) →
        Agrees T cur r (c.find k (T.mSampleToChunkEntries.drop c.mSampleToChunkIndex)).2 := by
  obtain ⟨rest, c₁, hr, hidx, hstop, hfirst, hag⟩ := h
  have hrest : rest = T.mSampleToChunkEntries.drop c.mSampleToChunkIndex := by
    rw [hidx]
    exact hr.rest_eq rangeScan rfl
  have hres : T.rangeOf k = c₁.find k rest := by
    rw [SampleTable.rangeOf, range_find_eq, range_find_eq,
      rangeScan.run_resume hr rangeScan_inv_start (Nat.le_trans hfirst hk)]
  rw [← hrest, hres]
  -- the parked range answers for `k` itself, or both scans go on from the same entry
  rcases Nat.lt_or_ge k c.mStopChunkSampleIndex with hlt | hge
  · have hlt₁ : k < c₁.mStopChunkSampleIndex := hstop ▸ hlt
    have hagree := hag (Nat.lt_of_le_of_lt hk hlt)
    rw [ChunkRange.find_of_lt hlt, ChunkRange.find_of_lt hlt₁]
    refine ⟨rfl, hagree.parked hr, fun r hr' => ?_⟩
    cases hr'
    exact hagree
  · have hge₁ : c₁.mStopChunkSampleIndex ≤ k := hstop ▸ hge
    cases hcase : rest with
    | nil =>
      simp only [ChunkRange.find, if_neg (Nat.not_lt.mpr hge), if_neg (Nat.not_lt.mpr hge₁)]
      refine ⟨trivial, ⟨rest, c₁, hr, hidx, hstop, hfirst, hag⟩, fun r hr' => ?_⟩
      cases hr'
    | cons e rest' =>
      have hsame : c.find k (e :: rest') = c₁.find k (e :: rest') := by
        rw [ChunkRange.find, ChunkRange.find, if_neg (Nat.not_lt.mpr hge),
          if_neg (Nat.not_lt.mpr hge₁), load_congr hidx hstop]
      rw [hsame, ← hcase, ← hres]
      refine ⟨rfl, rangeOf_parked T k cur, fun r hr' => ?_⟩
      rw [hr']
      exact .inl rfl

theorem Agrees.samplesPerChunk_eq_zero (h : Agrees T cur r c) :
    c.mSamplesPerChunk = 0 ↔ r.mSamplesPerChunk = 0 := by
  rcases h with rfl | ⟨n, rfl, hpos, hlt, -⟩
  · rfl
  · simp only
    omega

/-- A cut range still places the samples there are. -/
theorem Agrees.place (h : Agrees T cur r c) (hr : T.rangeOf k = (.OK, r))
    (hk : k < T.mNumSampleSizes.toNat) :
    c.mFirstChunkSampleIndex = r.mFirstChunkSampleIndex ∧ Seeker.chunkOf c k = Seeker.chunkOf r k ∧
      (k - r.mFirstChunkSampleIndex) % c.mSamplesPerChunk =
        (k - r.mFirstChunkSampleIndex) % r.mSamplesPerChunk := by
  rcases h with rfl | ⟨n, rfl, hpos, hlt, hnum, -⟩
  · exact ⟨rfl, rfl, rfl⟩
  · have hlt' : k - r.mFirstChunkSampleIndex < n := by omega
    refine ⟨rfl, ?_, ?_⟩
    · simp only [Seeker.chunkOf]
      rw [Nat.div_eq_of_lt hlt', Nat.div_eq_of_lt (Nat.lt_trans hlt' hlt)]
    · simp only
      rw [Nat.mod_eq_of_lt hlt', Nat.mod_eq_of_lt (Nat.lt_trans hlt' hlt)]

/-! ### Time and duration -/

/-- The cursors that do not depend on the chunk. -/
structure CursorsParked (T : SampleTable) (s : Seeker) : Prop where
  time : s.it.toTimeRun.Parked T
  lookup : s.lookup.Parked T

theorem findSampleTimeAndDuration_spec {s : Seeker} (h : CursorsParked T s)
    (hk : k < T.mNumSampleSizes.toNat) (hbase : s.it.mTTSSampleIndex ≤ k) :
    ∃ run lookup time duration, Seeker.findSampleTimeAndDuration T s k =
        (if (T.timeOf k).isSome then .OK else .ERROR_OUT_OF_RANGE, { s with
          lookup := lookup
          it.toTimeRun := run
          it.mCurrentSampleTime := time
          it.mCurrentSampleDuration := duration }) ∧
      run.Parked T ∧ lookup.Parked T ∧
      ∀ p, T.timeOf k = some p → time = p.1 ∧ duration = p.2 := by
  have hrun := time_find_resume h.time hbase
  have hpark := time_find_parked T k
  have hdelta := getCompositionTimeOffset_spec h.lookup k
  obtain ⟨found, run, hfind⟩ : ∃ found run, TimeRun.find k T.mTimeToSample {} = (found, run) :=
    ⟨_, _, rfl⟩
  rw [hfind] at hrun hpark
  simp only [Seeker.findSampleTimeAndDuration, if_neg (Nat.not_le.mpr hk), hrun]
  cases found with
  | false =>
    have htime : T.timeOf k = none := by simp [SampleTable.timeOf, hfind]
    rw [htime]
    exact ⟨run, _, _, _, rfl, hpark, h.lookup, fun p hp => by cases hp⟩
  | true =>
    cases ht : run.decodeTime k with
    | none =>
      have htime : T.timeOf k = none := by simp [SampleTable.timeOf, hfind, ht]
      rw [htime]
      exact ⟨run, _, _, _, rfl, hpark, h.lookup, fun p hp => by cases hp⟩
    | some time =>
      obtain ⟨hoff, hlook⟩ := hdelta
      simp only [not_true_eq_false, if_false, hoff]
      cases hc : compositionTime time (T.deltaOf k) with
      | none =>
        have htime : T.timeOf k = none := by simp [SampleTable.timeOf, hfind, ht, hc]
        rw [htime]
        exact ⟨run, _, _, _, rfl, hpark, hlook, fun p hp => by cases hp⟩
      | some time' =>
        have htime : T.timeOf k = some (time', run.mTTSDuration) := by
          simp [SampleTable.timeOf, hfind, ht, hc]
        rw [htime]
        refine ⟨run, _, _, _, rfl, hpark, hlook, fun p hp => ?_⟩
        cases hp
        exact ⟨rfl, rfl⟩

/-! ### The sample in the current chunk -/

def SampleIterator.sample (it : SampleIterator) : Sample :=
  ⟨it.mCurrentSampleOffset, it.mCurrentSampleSize, it.mCurrentSampleTime, it.mCurrentSampleDuration⟩

/-- The current chunk and range of two iterators are the same. -/
structure SameChunk (it it' : SampleIterator) : Prop where
  range : it'.toChunkRange = it.toChunkRange
  index : it'.mCurrentChunkIndex = it.mCurrentChunkIndex
  offset : it'.mCurrentChunkOffset = it.mCurrentChunkOffset
  sizes : it'.mCurrentChunkSampleSizes = it.mCurrentChunkSampleSizes

/-- The offset and size of the sample at a place in a chunk. -/
def placed (offset : BitVec 64) (sizes : List Nat) (relative : Nat) : BitVec 64 × Nat :=
  ((sizes.take relative).foldl (fun offset size => offset + BitVec.ofNat 64 size) offset,
    sizes.getD relative 0)

theorem seekSample_spec {s : Seeker} (h : CursorsParked T s) (hk : k < T.mNumSampleSizes.toNat)
    (hrel : (k - s.it.mFirstChunkSampleIndex) % s.it.mSamplesPerChunk <
      s.it.mCurrentChunkSampleSizes.length) :
    ∃ s', Seeker.seekSample T s k =
        some (if (T.timeOf k).isSome then .OK else .ERROR_OUT_OF_RANGE, s') ∧
      CursorsParked T s' ∧ SameChunk s.it s'.it ∧
      (T.timeOf k = none → s'.it.mInitialized = s.it.mInitialized) ∧
      ∀ p, T.timeOf k = some p → s'.it.mInitialized = true ∧ s'.it.mCurrentSampleIndex = k ∧
        (s'.it.mCurrentSampleOffset, s'.it.mCurrentSampleSize) =
          placed s.it.mCurrentChunkOffset s.it.mCurrentChunkSampleSizes
            ((k - s.it.mFirstChunkSampleIndex) % s.it.mSamplesPerChunk) ∧
        s'.it.mCurrentSampleTime = p.1 ∧ s'.it.mCurrentSampleDuration = p.2 := by
  obtain ⟨size, hsize⟩ : ∃ size, s.it.mCurrentChunkSampleSizes[
      (k - s.it.mFirstChunkSampleIndex) % s.it.mSamplesPerChunk]? = some size :=
    ⟨_, List.getElem?_eq_getElem hrel⟩
  have hget : s.it.mCurrentChunkSampleSizes.getD
      ((k - s.it.mFirstChunkSampleIndex) % s.it.mSamplesPerChunk) 0 = size := by
    rw [List.getD_eq_getElem?_getD, hsize, Option.getD_some]
  simp only [Seeker.seekSample, hsize]
  -- the iterator the time is searched with: its run of durations starts again if it is past `k`
  generalize hit : (if k < s.it.mTTSSampleIndex then _ else _ : SampleIterator) = it
  have hpark : CursorsParked T { s with it := it } := by
    refine ⟨?_, h.lookup⟩
    rw [← hit]
    split
    · exact ⟨_, .start⟩
    · exact h.time
  have hbase : it.mTTSSampleIndex ≤ k := by
    rw [← hit]
    split
    · exact Nat.zero_le k
    · next hge => exact Nat.not_lt.mp hge
  have hsame : SameChunk s.it it := by
    rw [← hit]
    split <;> exact ⟨rfl, rfl, rfl, rfl⟩
  have hfields : it.mInitialized = s.it.mInitialized ∧
      (it.mCurrentSampleOffset, it.mCurrentSampleSize) =
        placed s.it.mCurrentChunkOffset s.it.mCurrentChunkSampleSizes
          ((k - s.it.mFirstChunkSampleIndex) % s.it.mSamplesPerChunk) := by
    rw [← hit, placed, hget]
    split <;> exact ⟨rfl, rfl⟩
  obtain ⟨run, lookup, time, duration, heq, hrun, hlook, htime⟩ :=
    findSampleTimeAndDuration_spec hpark hk hbase
  rw [heq]
  cases ht : T.timeOf k with
  | none =>
    refine ⟨_, rfl, ⟨hrun, hlook⟩, ⟨hsame.range, hsame.index, hsame.offset, hsame.sizes⟩,
      fun _ => hfields.1, fun p hp => by cases hp⟩
  | some p =>
    refine ⟨_, rfl, ⟨hrun, hlook⟩, ⟨hsame.range, hsame.index, hsame.offset, hsame.sizes⟩, ?_, ?_⟩
    · intro hn
      cases hn
    · intro p' hp'
      cases hp'
      exact ⟨rfl, rfl, hfields.2, htime p ht⟩

/-! ### Iterators in good order -/

/-- The current chunk is the chunk of some sample, with its offset and sizes. -/
def ChunkCached (T : SampleTable) (it : SampleIterator) : Prop :=
  ∃ k r, k < T.mNumSampleSizes.toNat ∧ T.rangeOf k = (.OK, r) ∧ r.mSamplesPerChunk ≠ 0 ∧
    it.mCurrentChunkIndex = Seeker.chunkOf r k ∧
    T.getChunkOffset (Seeker.chunkOf r k) = .ok it.mCurrentChunkOffset ∧
    T.chunkSizes r k = .ok it.mCurrentChunkSampleSizes ∧ Uncut T r k

structure Cached (T : SampleTable) (it : SampleIterator) : Prop where
  range : it.toChunkRange.Parked T it.mCurrentChunkIndex
  chunk : ChunkCached T it
  sample : T.sampleAt it.mCurrentSampleIndex = .ok it.sample

structure Ordered (T : SampleTable) (s : Seeker) : Prop where
  cursors : CursorsParked T s
  cached : s.it.mInitialized = true → Cached T s.it

theorem Ordered.fresh (T : SampleTable) : Ordered T {} where
  cursors := ⟨⟨_, .start⟩, ⟨_, .start⟩⟩
  cached := fun h => absurd h Bool.false_ne_true

/-- The cached chunk serves every sample of it. -/
theorem ChunkCached.serves {it : SampleIterator} (h : ChunkCached T it)
    (hr : T.rangeOf k = (.OK, r)) (hk : k < T.mNumSampleSizes.toNat)
    (hchunk : Seeker.chunkOf r k = it.mCurrentChunkIndex) :
    T.getChunkOffset (Seeker.chunkOf r k) = .ok it.mCurrentChunkOffset ∧
      T.chunkSizes r k = .ok it.mCurrentChunkSampleSizes ∧ Uncut T r k := by
  obtain ⟨k₀, r₀, hk₀, hr₀, h0, hidx, hoff, hsizes, hu⟩ := h
  have hnum := T.mNumSampleSizes.isLt
  obtain ⟨rfl, hq⟩ := chunkOf_inj hr hr₀ (by omega) (by omega) (hchunk.trans hidx)
  have hsame : Seeker.chunkOf r k = Seeker.chunkOf r k₀ := hchunk.trans hidx
  obtain ⟨_, -, -, hle, -⟩ := rangeOf_spec hr
  refine ⟨by rw [hsame]; exact hoff, by rw [SampleTable.chunkSizes, hsame]; exact hsizes, ?_⟩
  rw [Uncut, hsame]
  rcases hu with hu | hu
  · exact .inl hu
  · right
    have hz : (k₀ - r.mFirstChunkSampleIndex) / r.mSamplesPerChunk = 0 :=
      Nat.div_eq_of_lt (by omega)
    rw [hz, Nat.div_eq_zero_iff] at hq
    omega

/-- The chunk and the time of a sample can be read. -/
def Readable (T : SampleTable) (r : ChunkRange) (k : Nat) : Prop :=
  (T.getChunkOffset (Seeker.chunkOf r k)).isOk = true ∧ (T.chunkSizes r k).isOk = true ∧
    (T.timeOf k).isSome = true

instance : Decidable (Readable T r k) := inferInstanceAs (Decidable (_ ∧ _ ∧ _))

/-- The seeks that leave the iterator in good order: those that are refused before they touch
the chunk; and those whose chunk is not cut inside a range, and which succeed if one has
succeeded before. -/
def Harmless (T : SampleTable) (s : Seeker) (k : Nat) : Prop :=
  k < T.mNumSampleSizes.toNat → ¬T.Incomplete → (T.rangeOf k).1 = .OK →
    (T.rangeOf k).2.mSamplesPerChunk ≠ 0 →
    (Readable T (T.rangeOf k).2 k → Uncut T (T.rangeOf k).2 k) ∧
      (s.it.mInitialized = true → Readable T (T.rangeOf k).2 k)

instance (s : Seeker) : Decidable (Harmless T s k) := inferInstanceAs (Decidable (_ → _))

/-- What a seek tells its caller. -/
def outcome : Status × Seeker → Except Status Sample
  | (.OK, s) => .ok s.it.sample
  | (err, _) => .error err

theorem outcome_of_ne {err : Status} {s : Seeker} (h : err ≠ .OK) : outcome (err, s) = .error err := by
  cases err with
  | OK => exact absurd rfl h
  | _ => rfl

theorem outcome_eq_ok {status : Status} {s : Seeker} {sample : Sample}
    (h : outcome (status, s) = .ok sample) : status = .OK ∧ s.it.sample = sample := by
  cases status with
  | OK =>
    cases h
    exact ⟨rfl, rfl⟩
  | _ => cases h

/-! ### One seek -/

/-- A sample outside the current chunk is looked up in an uncut range. -/
theorem Agrees.eq_of_chunk_ne (h : Agrees T cur r c) (hr : T.rangeOf k = (.OK, r))
    (hk : k < T.mNumSampleSizes.toNat) (hne : Seeker.chunkOf c k ≠ cur) : c = r := by
  rcases h with rfl | ⟨n, rfl, hpos, hlt, hnum, hcur⟩
  · rfl
  · obtain ⟨_, -, hl, hle, -⟩ := rangeOf_spec hr
    have hlt' : k - r.mFirstChunkSampleIndex < n := by omega
    refine absurd ?_ hne
    rw [hcur, Seeker.chunkOf]
    simp only
    rw [Nat.div_eq_of_lt hlt', Nat.zero_add, Nat.mod_eq_of_lt hl.chunk_lt]

theorem seekRange_spec {it : SampleIterator}
    (h : it.mInitialized = true → it.toChunkRange.Parked T it.mCurrentChunkIndex) (k : Nat) :
    ∃ c, Seeker.seekRange T it k = ((T.rangeOf k).1, { it with toChunkRange := c }) ∧
      c.Parked T it.mCurrentChunkIndex ∧
      ∀ r, T.rangeOf k = (.OK, r) →
        Agrees T it.mCurrentChunkIndex r c ∧ (it.mInitialized = false → c = r) := by
  by_cases hreset : ¬it.mInitialized ∨ k < it.mFirstChunkSampleIndex
  · refine ⟨(T.rangeOf k).2, ?_, rangeOf_parked T k _, fun r hr => ?_⟩
    · simp only [Seeker.seekRange, if_pos hreset]
      rfl
    · rw [hr]
      exact ⟨.inl rfl, fun _ => rfl⟩
  · obtain ⟨hinit, hle⟩ : it.mInitialized = true ∧ it.mFirstChunkSampleIndex ≤ k := by
      simpa using hreset
    obtain ⟨hst, hpark, hag⟩ := find_parked (h hinit) hle
    refine ⟨_, ?_, hpark, fun r hr => ⟨hag r hr, fun hn => ?_⟩⟩
    · simp only [Seeker.seekRange, if_neg hreset, ← hst]
    · rw [hinit] at hn
      cases hn

/-- What a fresh seek finds in a chunk that can be read. -/
theorem sampleAt_of_chunk {offset : BitVec 64} {sizes : List Nat}
    (hk : k < T.mNumSampleSizes.toNat) (hinc : ¬T.Incomplete) (hr : T.rangeOf k = (.OK, r))
    (h0 : r.mSamplesPerChunk ≠ 0) (hoff : T.getChunkOffset (Seeker.chunkOf r k) = .ok offset)
    (hsizes : T.chunkSizes r k = .ok sizes) :
    T.sampleAt k = match T.timeOf k with
      | none => .error .ERROR_OUT_OF_RANGE
      | some p => .ok
        ⟨(placed offset sizes ((k - r.mFirstChunkSampleIndex) % sizes.length)).1,
          (placed offset sizes ((k - r.mFirstChunkSampleIndex) % sizes.length)).2, p.1, p.2⟩ := by
  simp only [SampleTable.sampleAt, if_neg (Nat.not_le.mpr hk), if_neg hinc, hr, if_neg h0, hoff,
    hsizes]
  cases T.timeOf k with
  | none => rfl
  | some p => rfl

/-- Once its chunk is current, a seek finds what a fresh one finds. -/
theorem seekSample_outcome {s : Seeker} (h : CursorsParked T s)
    (hk : k < T.mNumSampleSizes.toNat) (hinc : ¬T.Incomplete) (hr : T.rangeOf k = (.OK, r))
    (h0 : r.mSamplesPerChunk ≠ 0)
    (hoff : T.getChunkOffset (Seeker.chunkOf r k) = .ok s.it.mCurrentChunkOffset)
    (hsizes : T.chunkSizes r k = .ok s.it.mCurrentChunkSampleSizes)
    (hrel : (k - s.it.mFirstChunkSampleIndex) % s.it.mSamplesPerChunk =
      (k - r.mFirstChunkSampleIndex) % s.it.mCurrentChunkSampleSizes.length) :
    ∃ res, Seeker.seekSample T s k = some res ∧ outcome res = T.sampleAt k ∧
      CursorsParked T res.2 ∧ SameChunk s.it res.2.it ∧
      (T.timeOf k = none → res.2.it.mInitialized = s.it.mInitialized) ∧
      ((T.timeOf k).isSome → T.sampleAt res.2.it.mCurrentSampleIndex = .ok res.2.it.sample) := by
  obtain ⟨hpos, -⟩ := chunkSizes_spec hr hk h0 hsizes
  have hsample := sampleAt_of_chunk hk hinc hr h0 hoff hsizes
  obtain ⟨s', hs', hcur, hsame, hnone, hsome⟩ := seekSample_spec h hk
    (by rw [hrel]; exact Nat.mod_lt _ hpos)
  have hfound : ∀ p, T.timeOf k = some p → T.sampleAt k = .ok s'.it.sample := by
    intro p ht
    obtain ⟨-, -, hplaced, htime, hduration⟩ := hsome p ht
    simp only [hsample, ht, ← hrel, ← hplaced, ← htime, ← hduration]
    rfl
  refine ⟨_, hs', ?_, hcur, hsame, hnone, ?_⟩
  · cases ht : T.timeOf k with
    | none =>
      rw [hsample, ht]
      rfl
    | some p =>
      rw [hfound p ht]
      rfl
  · intro ht
    obtain ⟨p, ht⟩ := Option.isSome_iff_exists.mp ht
    rw [(hsome p ht).2.1]
    exact hfound p ht

/-- Reading a chunk of an uncut range. -/
theorem loadChunk_eq {it : SampleIterator} (hc : it.toChunkRange = r) (k : Nat) :
    Seeker.loadChunk T it (Seeker.chunkOf r k) =
      match T.getChunkOffset (Seeker.chunkOf r k), T.chunkSizes r k with
      | .error err, _ => (err, { it with mCurrentChunkOffset := 0 })
      | .ok offset, .error err =>
        (err, { it with mCurrentChunkOffset := offset, mCurrentChunkSampleSizes := [] })
      | .ok offset, .ok sizes =>
        (.OK, { it with
          mCurrentChunkOffset := offset
          mCurrentChunkSampleSizes := sizes
          mSamplesPerChunk := sizes.length
          mCurrentChunkIndex := Seeker.chunkOf r k }) := by
  subst hc
  simp only [Seeker.loadChunk, SampleTable.chunkSizes]
  cases T.getChunkOffset (Seeker.chunkOf it.toChunkRange k) with
  | error err => rfl
  | ok offset =>
    cases Seeker.readSampleSizes T (Seeker.firstSampleOf it.toChunkRange
      (Seeker.chunkOf it.toChunkRange k)) it.mSamplesPerChunk with
    | error err => rfl
    | ok sizes => rfl

/-- A range stays in agreement when the chunk read from it is not cut inside it. -/
theorem agrees_of_uncut {sizes : List Nat} (hr : T.rangeOf k = (.OK, r))
    (hk : k < T.mNumSampleSizes.toNat) (h0 : r.mSamplesPerChunk ≠ 0)
    (hsizes : T.chunkSizes r k = .ok sizes) (hu : Uncut T r k) :
    Agrees T (Seeker.chunkOf r k) r { r with mSamplesPerChunk := sizes.length } := by
  obtain ⟨hpos, hle, hspec⟩ := chunkSizes_spec hr hk h0 hsizes
  rcases (hspec hu).2.2 with heq | ⟨hnum, hlt⟩
  · left
    rw [heq]
  · rcases Nat.lt_or_eq_of_le hle with hcut | heq
    · right
      refine ⟨sizes.length, rfl, hpos, hcut, hnum, ?_⟩
      obtain ⟨_, -, hl, hfirst, -⟩ := rangeOf_spec hr
      rw [Seeker.chunkOf, Nat.div_eq_of_lt (by omega), Nat.zero_add, Nat.mod_eq_of_lt hl.chunk_lt]
    · left
      rw [heq]

/-- A seek that reads its chunk. -/
theorem seekLoaded_spec {s : Seeker} (h : CursorsParked T s) (hk : k < T.mNumSampleSizes.toNat)
    (hinc : ¬T.Incomplete) (hr : T.rangeOf k = (.OK, r)) (h0 : r.mSamplesPerChunk ≠ 0)
    (hc : s.it.toChunkRange = r) :
    ∃ res, (match Seeker.loadChunk T s.it (Seeker.chunkOf r k) with
        | (.OK, it) => Seeker.seekSample T { s with it := it } k
        | (err, it) => some (err, { s with it := it })) = some res ∧
      outcome res = T.sampleAt k ∧ CursorsParked T res.2 ∧
      (¬Readable T r k → res.2.it.mInitialized = s.it.mInitialized) ∧
      (Readable T r k → Uncut T r k → Cached T res.2.it) := by
  rw [loadChunk_eq hc]
  -- a chunk that cannot be read ends the seek with the error a fresh seek ends with
  cases hoff : T.getChunkOffset (Seeker.chunkOf r k) with
  | error err =>
    have hne := getChunkOffset_error hoff
    have hsample : T.sampleAt k = .error err := by
      simp only [SampleTable.sampleAt, if_neg (Nat.not_le.mpr hk), if_neg hinc, hr, if_neg h0, hoff]
    refine ⟨(err, { s with it.mCurrentChunkOffset := 0 }), ?_, ?_, ⟨h.time, h.lookup⟩,
      fun _ => rfl, fun hread => ?_⟩
    · cases err with
      | OK => exact absurd rfl hne
      | _ => rfl
    · rw [outcome_of_ne hne, hsample]
    · rw [Readable, hoff] at hread
      cases hread.1
  | ok offset =>
    cases hsizes : T.chunkSizes r k with
    | error err =>
      have hne : err ≠ .OK := readSampleSizes_error hsizes
      have hsample : T.sampleAt k = .error err := by
        simp only [SampleTable.sampleAt, if_neg (Nat.not_le.mpr hk), if_neg hinc, hr, if_neg h0,
          hoff, hsizes]
      refine ⟨(err, { s with
          it.mCurrentChunkOffset := offset
          it.mCurrentChunkSampleSizes := [] }), ?_, ?_, ⟨h.time, h.lookup⟩, fun _ => rfl,
        fun hread => ?_⟩
      · cases err with
        | OK => exact absurd rfl hne
        | _ => rfl
      · rw [outcome_of_ne hne, hsample]
      · rw [Readable, hsizes] at hread
        cases hread.2.1
    | ok sizes =>
      -- reading the chunk has replaced `mSamplesPerChunk` by the number of sizes read, so the
      -- sample is placed by `sizes.length` from here on
      subst hc
      simp only
      obtain ⟨res, hres, hout, hcur, hsame, hnone, hsome⟩ :=
        seekSample_outcome (s := { s with it := { s.it with
          mCurrentChunkOffset := offset
          mCurrentChunkSampleSizes := sizes
          mSamplesPerChunk := sizes.length
          mCurrentChunkIndex := Seeker.chunkOf s.it.toChunkRange k } })
          ⟨h.time, h.lookup⟩ hk hinc hr h0 hoff hsizes rfl
      refine ⟨res, hres, hout, hcur, fun hread => ?_, fun hread hu => ?_⟩
      · refine hnone (Option.not_isSome_iff_eq_none.mp fun ht => hread ⟨?_, ?_, ht⟩)
        · rw [hoff]
          rfl
        · rw [hsizes]
          rfl
      · obtain ⟨_, hreach, -⟩ := rangeOf_spec hr
        refine ⟨?_, ⟨k, _, hk, hr, h0, hsame.index, ?_, ?_, hu⟩, hsome hread.2.2⟩
        · rw [hsame.range, hsame.index]
          exact (agrees_of_uncut hr hk h0 hsizes hu).parked hreach
        · rw [hsame.offset]
          exact hoff
        · rw [hsame.sizes]
          exact hsizes

/-- A seek within the current chunk. -/
theorem seekCached_spec {s : Seeker} (h : CursorsParked T s) (hk : k < T.mNumSampleSizes.toNat)
    (hinc : ¬T.Incomplete) (hr : T.rangeOf k = (.OK, r)) (h0 : r.mSamplesPerChunk ≠ 0)
    (hag : Agrees T s.it.mCurrentChunkIndex r s.it.toChunkRange) (hcached : ChunkCached T s.it)
    (hchunk : Seeker.chunkOf s.it.toChunkRange k = s.it.mCurrentChunkIndex) :
    ∃ res, Seeker.seekSample T s k = some res ∧ outcome res = T.sampleAt k ∧
      CursorsParked T res.2 ∧ (Readable T r k → Cached T res.2.it) := by
  obtain ⟨hfirst, hplace, hmod⟩ := hag.place hr hk
  obtain ⟨hoff, hsizes, hu⟩ := hcached.serves hr hk (hplace.symm.trans hchunk)
  obtain ⟨-, -, hspec⟩ := chunkSizes_spec hr hk h0 hsizes
  obtain ⟨res, hres, hout, hcur, hsame, -, hsome⟩ :=
    seekSample_outcome h hk hinc hr h0 hoff hsizes (by rw [hfirst, hmod, (hspec hu).2.1])
  obtain ⟨_, hreach, -⟩ := rangeOf_spec hr
  refine ⟨res, hres, hout, hcur, fun hread => ⟨?_, ⟨k, r, hk, hr, h0, ?_, ?_, ?_, hu⟩,
    hsome hread.2.2⟩⟩
  · rw [hsame.range, hsame.index]
    exact hag.parked hreach
  · rw [hsame.index, ← hchunk, hplace]
  · rw [hsame.offset]
    exact hoff
  · rw [hsame.sizes]
    exact hsizes

/-- A seek on an iterator in good order finds what a fresh one finds, and a harmless one
leaves it in good order. -/
theorem seekTo_spec {s : Seeker} (h : Ordered T s) (k : Nat) :
    ∃ res, Seeker.seekTo T s k = some res ∧ outcome res = T.sampleAt k ∧
      (Harmless T s k → Ordered T res.2) := by
  by_cases hk : T.mNumSampleSizes.toNat ≤ k
  · refine ⟨(.ERROR_END_OF_STREAM, s), ?_, ?_, fun _ => h⟩
    · rw [Seeker.seekTo, if_pos hk]
    · rw [SampleTable.sampleAt, if_pos hk]
      rfl
  by_cases hinc : T.Incomplete
  · refine ⟨(.ERROR_MALFORMED, s), ?_, ?_, fun _ => h⟩
    · rw [Seeker.seekTo, if_neg hk, if_pos hinc]
    · rw [SampleTable.sampleAt, if_neg hk, if_pos hinc]
      rfl
  by_cases hsame : s.it.mInitialized ∧ s.it.mCurrentSampleIndex = k
  · refine ⟨(.OK, s), ?_, ?_, fun _ => h⟩
    · rw [Seeker.seekTo, if_neg hk, if_neg hinc, if_pos hsame]
    · rw [← hsame.2, (h.cached hsame.1).sample]
      rfl
  obtain ⟨c, hrange, hpark, hag⟩ := seekRange_spec (fun hi => (h.cached hi).range) k
  -- a range alone never spoils the cached chunk and sample
  have hkeep : Ordered T { s with it.toChunkRange := c } :=
    ⟨⟨h.cursors.time, h.cursors.lookup⟩,
      fun hi => ⟨hpark, (h.cached hi).chunk, (h.cached hi).sample⟩⟩
  obtain ⟨status, r, hr⟩ : ∃ status r, T.rangeOf k = (status, r) := ⟨_, _, rfl⟩
  rw [hr] at hrange
  by_cases hok : status = .OK
  · subst hok
    obtain ⟨hagree, hfresh⟩ := hag r hr
    have hzero := hagree.samplesPerChunk_eq_zero
    by_cases h0 : r.mSamplesPerChunk = 0
    · refine ⟨(.ERROR_MALFORMED, { s with it.toChunkRange := c }), ?_, ?_, fun _ => hkeep⟩
      · simp only [Seeker.seekTo, if_neg hk, if_neg hinc, if_neg hsame, hrange,
          if_pos (hzero.mpr h0)]
      · simp only [SampleTable.sampleAt, if_neg hk, if_neg hinc, hr, if_pos h0]
        rfl
    · have hk' := Nat.not_le.mp hk
      by_cases hload : ¬s.it.mInitialized ∨ Seeker.chunkOf c k ≠ s.it.mCurrentChunkIndex
      · have hc : c = r := by
          rcases hload with hi | hne
          · exact hfresh (by simpa using hi)
          · exact hagree.eq_of_chunk_ne hr hk' hne
        subst hc
        obtain ⟨res, hres, hout, hcur, hinit, hcached⟩ :=
          seekLoaded_spec hkeep.cursors hk' hinc hr h0 rfl
        refine ⟨res, ?_, hout, fun hh => ⟨hcur, fun hi => ?_⟩⟩
        · simp only [Seeker.seekTo, if_neg hk, if_neg hinc, if_neg hsame, hrange,
            if_neg (mt hzero.mp h0), if_pos hload]
          exact hres
        · rw [Harmless, hr] at hh
          obtain ⟨hu, hread⟩ := hh hk' hinc rfl h0
          by_cases hrd : Readable T c k
          · exact hcached hrd (hu hrd)
          · rw [hinit hrd] at hi
            exact absurd (hread hi) hrd
      · obtain ⟨hi, hchunk⟩ : s.it.mInitialized = true ∧
            Seeker.chunkOf c k = s.it.mCurrentChunkIndex := by simpa using hload
        obtain ⟨res, hres, hout, hcur, hcached⟩ :=
          seekCached_spec hkeep.cursors hk' hinc hr h0 hagree (hkeep.cached hi).chunk hchunk
        refine ⟨res, ?_, hout, fun hh => ⟨hcur, fun _ => ?_⟩⟩
        · simp only [Seeker.seekTo, if_neg hk, if_neg hinc, if_neg hsame, hrange,
            if_neg (mt hzero.mp h0), if_neg hload]
          exact hres
        · rw [Harmless, hr] at hh
          exact hcached ((hh hk' hinc rfl h0).2 hi)
  · refine ⟨(status, { s with it.toChunkRange := c }), ?_, ?_, fun _ => hkeep⟩
    · simp only [Seeker.seekTo, if_neg hk, if_neg hinc, if_neg hsame, hrange]
    · rw [outcome_of_ne hok]
      simp only [SampleTable.sampleAt, if_neg hk, if_neg hinc, hr]

/-! ### Every history of seeks -/

/-- An iterator that is sent from sample to sample. -/
def seeks (T : SampleTable) : Machine Seeker Nat where
  init := {}
  step s k := (Seeker.seekTo T s k).map (·.2)

theorem Ordered.of_run {s : Seeker} (h : (seeks T).Run (Harmless T) s) : Ordered T s := by
  refine h.invariant (Ordered.fresh T) ?_
  intro s k s' hs hh hstep
  obtain ⟨res, hres, -, hord⟩ := seekTo_spec hs k
  obtain rfl : res.2 = s' := by simpa [seeks, hres] using hstep
  exact hord hh

/-- A fresh iterator over a table that lookups have gone through. -/
theorem Ordered.fresh_of_parked {l : CompositionDeltaLookup} (h : l.Parked T) :
    Ordered T { lookup := l } :=
  ⟨⟨⟨_, .start⟩, h⟩, fun hi => absurd hi Bool.false_ne_true⟩

/-- After any history of harmless seeks, a seek reports what it would report on a fresh
iterator, over the table as it is now or as it was at first. -/
theorem seekTo_after_harmless_seeks (T : SampleTable) {s : Seeker}
    (h : (seeks T).Run (Harmless T) s) (k : Nat) :
    ∃ found, (Seeker.seekTo T s k).map outcome = some found ∧
      (Seeker.seekTo T { lookup := s.lookup } k).map outcome = some found ∧
      (Seeker.seekTo T {} k).map outcome = some found := by
  have hs := Ordered.of_run h
  have hfresh := Ordered.fresh_of_parked hs.cursors.lookup
  have hfound : ∀ s', Ordered T s' →
      (Seeker.seekTo T s' k).map outcome = some (T.sampleAt k) := by
    intro s' hs'
    obtain ⟨res, hres, hout, -⟩ := seekTo_spec hs' k
    rw [hres, Option.map_some, hout]
  exact ⟨_, hfound s hs, hfound _ hfresh, hfound {} (Ordered.fresh T)⟩

/-- Three samples of ten bytes, two in the chunk at offset 100 and one in a chunk that
`stco` does not list. -/
def missingChunk : SampleTable where
  readAt offset _ := if offset = 8 then [0, 0, 0, 100] else []
  mChunkOffsetOffset := 0
  mChunkOffsetType := .kChunkOffsetType32
  mNumChunkOffsets := 1
  mSampleToChunkOffset := 0
  mSampleToChunkEntries := [⟨0, 2, 1⟩]
  mSampleSizeOffset := 0
  mSampleSizeFieldSize := .bits32
  mDefaultSampleSize := 10
  mNumSampleSizes := 3
  mTimeToSample := [⟨3, 5⟩]
  mCompositionTimeDeltaEntries := []

theorem seekTo_after_harmless_seeks_missingChunk :
    ∃ s, (seeks missingChunk).Run (Harmless missingChunk) s ∧ s.it.mCurrentSampleIndex = 1 ∧
      ∃ found, (Seeker.seekTo missingChunk s 0).map outcome = some found ∧
        (Seeker.seekTo missingChunk {} 0).map outcome = some found := by
  have hr := Machine.Run.of_exec (seeks missingChunk) (Harmless missingChunk) [2, 0, 7, 1]
    (by decide)
  obtain ⟨found, hs, -, h₀⟩ := seekTo_after_harmless_seeks missingChunk hr 0
  exact ⟨_, hr, by decide, found, hs, h₀⟩

/-- A seek into the chunk without an offset zeroes the offset of the current chunk, and the
next sample of that chunk is found at 10 instead of 110. -/
theorem failed_seek_misplaces_next :
    ∃ s, (seeks missingChunk).Run (fun _ _ => True) s ∧
      (Seeker.seekTo missingChunk s 1).map outcome = some (.ok ⟨10, 10, 5, 5⟩) ∧
      (Seeker.seekTo missingChunk { lookup := s.lookup } 1).map outcome =
        some (.ok ⟨110, 10, 5, 5⟩) := by
  have hr := Machine.Run.of_exec (seeks missingChunk) (fun _ _ => True) [0, 2] (by decide)
  exact ⟨_, hr, by decide, by decide⟩

end MediaFramework.Mp4
