import MediaFramework.Lib.RunLength
import MediaFramework.Mp4.SampleIterator

/-!
# The three scans of a sample lookup

Ranges of chunks, runs of durations and runs of composition offsets are found by scans
that resume where the last one stopped. None of them depends on where that was.
-/

namespace MediaFramework.Mp4

/-! ### Composition offsets -/

def deltaScan : Scan CompositionDeltaEntry CompositionDeltaLookup
    (BitVec 32 × CompositionDeltaLookup) where
  last _ l := (0, l)
  next k entry _ l :=
    if k < l.mCurrentEntrySampleIndex + entry.count.toNat then .inl (entry.delta, l)
    else .inr ⟨l.mCurrentDeltaEntry + 1, l.mCurrentEntrySampleIndex + entry.count.toNat⟩
  base l := l.mCurrentEntrySampleIndex
  pos l := l.mCurrentDeltaEntry
  inv _ := True
  pos_next := by
    intro k e rest c c' h
    split at h
    · cases h
    · cases h
      rfl
  inv_next := fun _ _ => trivial
  base_le := by
    intro k e rest c c' _ h
    split at h
    · cases h
    · cases h
      exact Nat.le_add_right _ _
  base_le_key := by
    intro k e rest c c' h
    split at h
    · cases h
    · next hge =>
      cases h
      exact Nat.not_lt.mp hge
  next_congr := by
    intro k k' e rest c c' h hk
    split at h
    · cases h
    · cases h
      exact if_neg (Nat.not_lt.mpr hk)

theorem delta_find_eq (k : Nat) (rest : List CompositionDeltaEntry) (l : CompositionDeltaLookup) :
    l.find k rest = deltaScan.run k rest l := by
  induction rest generalizing l with
  | nil => rfl
  | cons e rest ih =>
    simp only [CompositionDeltaLookup.find, Scan.run, deltaScan]
    split
    · rfl
    · exact ih _

/-- A cursor that lookups leave behind. -/
def CompositionDeltaLookup.Parked (T : SampleTable) (l : CompositionDeltaLookup) : Prop :=
  ∃ rest, deltaScan.Reached T.mCompositionTimeDeltaEntries {} rest l

/-- The composition offset of a sample. -/
def SampleTable.deltaOf (T : SampleTable) (k : Nat) : BitVec 32 :=
  (CompositionDeltaLookup.find k T.mCompositionTimeDeltaEntries {}).1

theorem getCompositionTimeOffset_spec {T : SampleTable} {l : CompositionDeltaLookup}
    (h : l.Parked T) (k : Nat) :
    (T.getCompositionTimeOffset l k).1 = T.deltaOf k ∧
      (T.getCompositionTimeOffset l k).2.Parked T := by
  have hstart : ∀ l' : CompositionDeltaLookup, l'.Parked T → l'.mCurrentEntrySampleIndex ≤ k →
      l'.find k (T.mCompositionTimeDeltaEntries.drop l'.mCurrentDeltaEntry) =
        CompositionDeltaLookup.find k T.mCompositionTimeDeltaEntries {} := by
    rintro l' ⟨rest, hr⟩ hk
    have hrest : rest = T.mCompositionTimeDeltaEntries.drop l'.mCurrentDeltaEntry :=
      hr.rest_eq deltaScan rfl
    rw [← hrest, delta_find_eq, delta_find_eq, deltaScan.run_resume hr trivial hk]
  have hpark : (CompositionDeltaLookup.find k T.mCompositionTimeDeltaEntries {}).2.Parked T := by
    rw [delta_find_eq]
    obtain ⟨rest, l', hr, -, hs⟩ :=
      deltaScan.run_stops T.mCompositionTimeDeltaEntries {} (Nat.zero_le k)
    generalize deltaScan.run k T.mCompositionTimeDeltaEntries {} = res at hs
    cases hs with
    | last => exact ⟨_, hr⟩
    | here hn =>
      simp only [deltaScan] at hn
      split at hn
      · cases hn
        exact ⟨_, hr⟩
      · cases hn
  have hfind : T.getCompositionTimeOffset l k =
      CompositionDeltaLookup.find k T.mCompositionTimeDeltaEntries {} := by
    simp only [SampleTable.getCompositionTimeOffset]
    split
    · exact hstart {} ⟨_, .start⟩ (Nat.zero_le _)
    · next hge => exact hstart l h (Nat.not_lt.mp hge)
  rw [hfind]
  exact ⟨rfl, hpark⟩

/-! ### Runs of durations -/

def timeScan : Scan TimeToSampleEntry TimeRun (Bool × TimeRun) where
  -- the test for overflow comes before the test for the sample, after the last entry as well
  last k c :=
    if UINT32_MAX - c.mTTSCount < c.mTTSSampleIndex then (false, c)
    else (k < c.mTTSSampleIndex + c.mTTSCount, c)
  next k entry _ c :=
    if UINT32_MAX - c.mTTSCount < c.mTTSSampleIndex then .inl (false, c)
    else if k < c.mTTSSampleIndex + c.mTTSCount then .inl (true, c)
    else if (c.mTTSDuration ≠ 0 ∧ UINT64_MAX / c.mTTSDuration < c.mTTSCount) ∨
        UINT64_MAX - c.mTTSCount * c.mTTSDuration % 2^64 < c.mTTSSampleTime then .inl (false, c)
    else .inr {
      mTimeToSampleIndex := c.mTimeToSampleIndex + 1
      mTTSSampleIndex := c.mTTSSampleIndex + c.mTTSCount
      mTTSSampleTime := c.mTTSSampleTime + c.mTTSCount * c.mTTSDuration
      mTTSCount := entry.count.toNat
      mTTSDuration := entry.duration.toNat }
  base c := c.mTTSSampleIndex
  pos c := c.mTimeToSampleIndex
  inv _ := True
  pos_next := by
    intro k e rest c c' h
    split at h
    · cases h
    split at h
    · cases h
    split at h
    · cases h
    · cases h
      rfl
  inv_next := fun _ _ => trivial
  base_le := by
    intro k e rest c c' _ h
    split at h
    · cases h
    split at h
    · cases h
    split at h
    · cases h
    · cases h
      exact Nat.le_add_right _ _
  base_le_key := by
    intro k e rest c c' h
    split at h
    · cases h
    split at h
    · cases h
    next hge =>
    split at h
    · cases h
    · cases h
      exact Nat.not_lt.mp hge
  -- the move to the next run does not look at `k` once it is past the current one
  next_congr := by
    intro k k' e rest c c' h hk
    split at h
    · cases h
    next h₁ =>
    split at h
    · cases h
    split at h
    · cases h
    next h₃ =>
    cases h
    rw [if_neg h₁, if_neg (Nat.not_lt.mpr hk), if_neg h₃]

theorem time_find_eq (k : Nat) (rest : List TimeToSampleEntry) (c : TimeRun) :
    c.find k rest = timeScan.run k rest c := by
  induction rest generalizing c with
  | nil => rfl
  | cons e rest ih =>
    simp only [TimeRun.find, Scan.run, timeScan]
    split
    · rfl
    split
    · rfl
    split
    · rfl
    · exact ih _

/-- A run that lookups leave behind. -/
def TimeRun.Parked (T : SampleTable) (c : TimeRun) : Prop :=
  ∃ rest, timeScan.Reached T.mTimeToSample {} rest c

theorem time_find_resume {T : SampleTable} {c : TimeRun} {k : Nat} (h : c.Parked T)
    (hk : c.mTTSSampleIndex ≤ k) :
    c.find k (T.mTimeToSample.drop c.mTimeToSampleIndex) = TimeRun.find k T.mTimeToSample {} := by
  obtain ⟨rest, hr⟩ := h
  have hrest : rest = T.mTimeToSample.drop c.mTimeToSampleIndex := hr.rest_eq timeScan rfl
  rw [← hrest, time_find_eq, time_find_eq, timeScan.run_resume hr trivial hk]

theorem time_find_parked (T : SampleTable) (k : Nat) :
    (TimeRun.find k T.mTimeToSample {}).2.Parked T := by
  rw [time_find_eq]
  obtain ⟨rest, c, hr, -, hs⟩ := timeScan.run_stops T.mTimeToSample {} (Nat.zero_le k)
  generalize timeScan.run k T.mTimeToSample {} = res at hs
  cases hs with
  | last =>
    simp only [timeScan]
    split <;> exact ⟨_, hr⟩
  | here hn =>
    simp only [timeScan] at hn
    split at hn
    · cases hn
      exact ⟨_, hr⟩
    split at hn
    · cases hn
      exact ⟨_, hr⟩
    split at hn
    · cases hn
      exact ⟨_, hr⟩
    · cases hn

/-! ### Ranges of chunks -/

/-- What loading an entry gives, in terms of the start of the next one. -/
theorem load_ok {entry : SampleToChunkEntry} {rest : List SampleToChunkEntry} {c c' : ChunkRange}
    (h : c.load entry rest = .ok c') :
    c'.mSampleToChunkIndex = c.mSampleToChunkIndex + 1 ∧
      c'.mFirstChunkSampleIndex = c.mStopChunkSampleIndex ∧
      c'.mFirstChunk = entry.startChunk.toNat ∧
      c'.mSamplesPerChunk = entry.samplesPerChunk.toNat ∧
      match rest.head? with
      | some next =>
        c'.mStopChunk = next.startChunk.toNat ∧ 0 < c'.mSamplesPerChunk ∧
          c'.mFirstChunk ≤ c'.mStopChunk ∧
          c'.mStopChunkSampleIndex = c'.mFirstChunkSampleIndex +
            (c'.mStopChunk - c'.mFirstChunk) * c'.mSamplesPerChunk ∧
          (c'.mStopChunk - c'.mFirstChunk) * c'.mSamplesPerChunk ≤
            UINT32_MAX - c'.mFirstChunkSampleIndex
      | none => c'.mStopChunkSampleIndex = 0xffffffff := by
  simp only [ChunkRange.load] at h
  cases hr : rest.head? with
  | none =>
    simp only [hr, Except.ok.injEq] at h
    subst h
    exact ⟨rfl, rfl, rfl, rfl, rfl⟩
  | some next =>
    simp only [hr] at h
    split at h
    · cases h
    · next hg =>
      simp only [not_or, Nat.not_lt] at hg
      cases h
      exact ⟨rfl, rfl, rfl, rfl, rfl, Nat.pos_of_ne_zero hg.1, hg.2.1, rfl, hg.2.2.2⟩

/-- Loading an entry depends only on the index and the end of the range before. -/
theorem load_congr {c c₁ : ChunkRange} (hidx : c.mSampleToChunkIndex = c₁.mSampleToChunkIndex)
    (hstop : c.mStopChunkSampleIndex = c₁.mStopChunkSampleIndex) (entry : SampleToChunkEntry)
    (rest : List SampleToChunkEntry) : c.load entry rest = c₁.load entry rest := by
  simp only [ChunkRange.load, hidx, hstop]

/-- A failed load keeps the index and the end of the range before. -/
theorem load_error {entry : SampleToChunkEntry} {rest : List SampleToChunkEntry} {c c' : ChunkRange}
    (h : c.load entry rest = .error c') :
    c'.mSampleToChunkIndex = c.mSampleToChunkIndex ∧
      c'.mStopChunkSampleIndex = c.mStopChunkSampleIndex ∧
      c'.mFirstChunkSampleIndex = c.mStopChunkSampleIndex := by
  simp only [ChunkRange.load] at h
  cases hr : rest.head? with
  | none =>
    simp only [hr] at h
    cases h
  | some next =>
    simp only [hr] at h
    split at h
    · cases h
      exact ⟨rfl, rfl, rfl⟩
    · cases h

theorem load_succeeds {entry : SampleToChunkEntry} (rest : List SampleToChunkEntry) (c : ChunkRange)
    (hpos : 0 < entry.samplesPerChunk.toNat)
    (hnext : ∀ next, rest.head? = some next → entry.startChunk.toNat ≤ next.startChunk.toNat ∧
      c.mStopChunkSampleIndex + (next.startChunk.toNat - entry.startChunk.toNat) *
        entry.samplesPerChunk.toNat ≤ UINT32_MAX) :
    ∃ c', c.load entry rest = .ok c' := by
  simp only [ChunkRange.load]
  cases hr : rest.head? with
  | none => exact ⟨_, rfl⟩
  | some next =>
    obtain ⟨hle, hmax⟩ := hnext next hr
    have hdiv : ¬UINT32_MAX / entry.samplesPerChunk.toNat <
        next.startChunk.toNat - entry.startChunk.toNat := by
      rw [Nat.not_lt, Nat.le_div_iff_mul_le hpos]
      exact Nat.le_trans (Nat.le_add_left _ _) hmax
    simp only
    rw [if_neg (by omega)]
    exact ⟨_, rfl⟩

/-- A range that is loaded does not end before it starts, nor beyond the sample numbers. -/
theorem load_bounds {entry : SampleToChunkEntry} {rest : List SampleToChunkEntry}
    {c c' : ChunkRange} (h : c.load entry rest = .ok c')
    (hstart : c.mStopChunkSampleIndex ≤ UINT32_MAX) :
    c'.mFirstChunkSampleIndex ≤ c'.mStopChunkSampleIndex ∧ c'.mStopChunkSampleIndex ≤ UINT32_MAX := by
  obtain ⟨-, hfirst, -, -, hstop⟩ := load_ok h
  have hM : UINT32_MAX = 2^32 - 1 := rfl
  cases hr : rest.head? with
  | none =>
    simp only [hr] at hstop
    omega
  | some next =>
    simp only [hr] at hstop
    omega

theorem ChunkRange.find_of_lt {k : Nat} {c : ChunkRange} (h : k < c.mStopChunkSampleIndex)
    (rest : List SampleToChunkEntry) : c.find k rest = (.OK, c) := by
  cases rest with
  | nil => rw [ChunkRange.find, if_pos h]
  | cons e rest => rw [ChunkRange.find, if_pos h]

def rangeScan : Scan SampleToChunkEntry ChunkRange (Status × ChunkRange) where
  last k c := (if k < c.mStopChunkSampleIndex then .OK else .ERROR_OUT_OF_RANGE, c)
  next k entry rest c :=
    if k < c.mStopChunkSampleIndex then .inl (.OK, c)
    else
      match c.load entry rest with
      | .error c => .inl (.ERROR_OUT_OF_RANGE, c)
      | .ok c => .inr c
  base c := c.mFirstChunkSampleIndex
  pos c := c.mSampleToChunkIndex
  -- the ranges are half-open and end within the 32-bit sample numbers
  inv c := c.mFirstChunkSampleIndex ≤ c.mStopChunkSampleIndex ∧ c.mStopChunkSampleIndex ≤ UINT32_MAX
  pos_next := by
    intro k e rest c c' h
    split at h
    · cases h
    split at h
    · cases h
    · next hl =>
      cases h
      exact (load_ok hl).1
  inv_next := by
    intro k e rest c c' hc h
    split at h
    · cases h
    split at h
    · cases h
    · next hl =>
      cases h
      exact load_bounds hl hc.2
  base_le := by
    intro k e rest c c' hc h
    split at h
    · cases h
    split at h
    · cases h
    · next hl =>
      cases h
      rw [(load_ok hl).2.1]
      exact hc.1
  base_le_key := by
    intro k e rest c c' h
    split at h
    · cases h
    next hge =>
    split at h
    · cases h
    · next hl =>
      cases h
      rw [(load_ok hl).2.1]
      exact Nat.not_lt.mp hge
  next_congr := by
    intro k k' e rest c c' h hk
    split at h
    · cases h
    split at h
    · cases h
    · next hl =>
      cases h
      rw [(load_ok hl).2.1] at hk
      simp only [if_neg (Nat.not_lt.mpr hk)]

theorem range_find_eq (k : Nat) (rest : List SampleToChunkEntry) (c : ChunkRange) :
    c.find k rest = rangeScan.run k rest c := by
  induction rest generalizing c with
  | nil => rfl
  | cons e rest ih =>
    simp only [ChunkRange.find, Scan.run, rangeScan]
    split
    · rfl
    · cases hl : c.load e rest with
      | error c' => rfl
      | ok c' => exact ih c'

/-- The range of a sample, as a scan from the start finds it. -/
def SampleTable.rangeOf (T : SampleTable) (k : Nat) : Status × ChunkRange :=
  ChunkRange.find k T.mSampleToChunkEntries {}

/-- The first chunk of the first range. -/
def SampleTable.startChunk (T : SampleTable) : Nat :=
  (T.mSampleToChunkEntries.head?.map fun e => e.startChunk.toNat).getD 0

/-- A cursor with a range loaded: the chunks before it hold at least one sample each, and a
range that is not the last ends where the next one starts. -/
structure Loaded (T : SampleTable) (rest : List SampleToChunkEntry) (c : ChunkRange) : Prop where
  chunk_lt : c.mFirstChunk < 2^32
  start_le : T.startChunk ≤ c.mFirstChunk
  chunks_le : c.mFirstChunk ≤ T.startChunk + c.mFirstChunkSampleIndex
  stop : ∀ next, rest.head? = some next →
    c.mStopChunk = next.startChunk.toNat ∧ 0 < c.mSamplesPerChunk ∧ c.mFirstChunk ≤ c.mStopChunk ∧
      c.mStopChunkSampleIndex =
        c.mFirstChunkSampleIndex + (c.mStopChunk - c.mFirstChunk) * c.mSamplesPerChunk

variable {T : SampleTable} {k : Nat} {rest : List SampleToChunkEntry} {c r : ChunkRange}

theorem range_move {e : SampleToChunkEntry} {c' : ChunkRange}
    (h : rangeScan.next k e rest c = .inr c') : c.load e rest = .ok c' := by
  simp only [rangeScan] at h
  split at h
  · cases h
  · cases hl : c.load e rest with
    | error c₁ => rw [hl] at h; cases h
    | ok c₁ =>
      rw [hl] at h
      cases h
      rfl

theorem reached_loaded (h : rangeScan.Reached T.mSampleToChunkEntries {} rest c) :
    (c = {} ∧ rest = T.mSampleToChunkEntries) ∨ Loaded T rest c := by
  induction h with
  | start => exact .inl ⟨rfl, rfl⟩
  | @move k e rest c c' _ hn ih =>
    obtain ⟨-, hfirst, hchunk, -, hstop⟩ := load_ok (range_move hn)
    have hstop' : ∀ next, rest.head? = some next →
        c'.mStopChunk = next.startChunk.toNat ∧ 0 < c'.mSamplesPerChunk ∧
          c'.mFirstChunk ≤ c'.mStopChunk ∧ c'.mStopChunkSampleIndex =
            c'.mFirstChunkSampleIndex + (c'.mStopChunk - c'.mFirstChunk) * c'.mSamplesPerChunk := by
      intro next hr
      rw [hr] at hstop
      exact ⟨hstop.1, hstop.2.1, hstop.2.2.1, hstop.2.2.2.1⟩
    have hlt := e.startChunk.isLt
    right
    -- the first entry is loaded over the initial cursor, the others over a loaded range
    rcases ih with ⟨rfl, hall⟩ | hc
    · have hstart : T.startChunk = e.startChunk.toNat := by
        rw [SampleTable.startChunk, ← hall]
        rfl
      exact ⟨by omega, by omega, by omega, hstop'⟩
    · obtain ⟨hs, hpos, hle, hcount⟩ := hc.stop e rfl
      have h₁ := hc.start_le
      have h₂ := hc.chunks_le
      have h₃ := Nat.le_mul_of_pos_right (c.mStopChunk - c.mFirstChunk) hpos
      exact ⟨by omega, by omega, by omega, hstop'⟩

/-- What a successful scan from the start finds. -/
theorem rangeOf_spec (h : T.rangeOf k = (.OK, r)) :
    ∃ rest, rangeScan.Reached T.mSampleToChunkEntries {} rest r ∧ Loaded T rest r ∧
      r.mFirstChunkSampleIndex ≤ k ∧ k < r.mStopChunkSampleIndex := by
  rw [SampleTable.rangeOf, range_find_eq] at h
  obtain ⟨rest, c, hr, hk, hs⟩ := rangeScan.run_stops T.mSampleToChunkEntries {} (Nat.zero_le k)
  rw [h] at hs
  have hres : c = r ∧ k < r.mStopChunkSampleIndex := by
    generalize hres : ((Status.OK, r) : Status × ChunkRange) = res at hs
    cases hs with
    | last =>
      simp only [rangeScan, Prod.mk.injEq] at hres
      obtain ⟨hst, rfl⟩ := hres
      refine ⟨rfl, ?_⟩
      by_contra hge
      rw [if_neg hge] at hst
      cases hst
    | here hn =>
      simp only [rangeScan] at hn
      split at hn
      · next hlt =>
        cases hn
        cases hres
        exact ⟨rfl, hlt⟩
      · split at hn
        · cases hn
          cases hres
        · cases hn
  obtain ⟨rfl, hlt⟩ := hres
  rcases reached_loaded hr with ⟨rfl, -⟩ | hl
  · exact absurd hlt (Nat.not_lt_zero k)
  · exact ⟨rest, hr, hl, hk, hlt⟩

/-- The ranges a scan goes on to start no earlier than the entry it enters next. -/
theorem startChunk_le_of_find {e : SampleToChunkEntry} (h : c.find k rest = (.OK, r))
    (hk : c.mStopChunkSampleIndex ≤ k) (he : rest.head? = some e) :
    e.startChunk.toNat ≤ r.mFirstChunk := by
  induction rest generalizing c e with
  | nil => cases he
  | cons e' rest ih =>
    obtain rfl : e' = e := Option.some.inj he
    rw [ChunkRange.find, if_neg (Nat.not_lt.mpr hk)] at h
    cases hl : c.load e' rest with
    | error c' =>
      rw [hl] at h
      cases h
    | ok c' =>
      rw [hl] at h
      obtain ⟨-, -, hchunk, -, hstop⟩ := load_ok hl
      rcases Nat.lt_or_ge k c'.mStopChunkSampleIndex with hlt | hge
      · simp only [ChunkRange.find_of_lt hlt] at h
        cases h
        exact Nat.le_of_eq hchunk.symm
      · cases hr : rest.head? with
        | none =>
          obtain rfl : rest = [] := List.head?_eq_none_iff.mp hr
          simp [ChunkRange.find, Nat.not_lt.mpr hge] at h
        | some next =>
          rw [hr] at hstop
          have := ih h hge hr
          omega

/-! ### Chunks -/

/-- The number of a sample's chunk, before it wraps. -/
def chunkNumber (r : ChunkRange) (k : Nat) : Nat :=
  (k - r.mFirstChunkSampleIndex) / r.mSamplesPerChunk + r.mFirstChunk

theorem chunkNumber_range (h : T.rangeOf k = (.OK, r)) :
    T.startChunk ≤ chunkNumber r k ∧ chunkNumber r k ≤ T.startChunk + k := by
  obtain ⟨rest, -, hl, hk, -⟩ := rangeOf_spec h
  have h₁ := hl.start_le
  have h₂ := hl.chunks_le
  have h₃ := Nat.div_le_self (k - r.mFirstChunkSampleIndex) r.mSamplesPerChunk
  rw [chunkNumber]
  generalize (k - r.mFirstChunkSampleIndex) / r.mSamplesPerChunk = q at h₃
  omega

/-- A later sample is in the same range, or in one whose chunks come after. -/
theorem rangeOf_mono {k' : Nat} {r' : ChunkRange} (h : T.rangeOf k = (.OK, r))
    (h' : T.rangeOf k' = (.OK, r')) (hle : k ≤ k') :
    r = r' ∨ (chunkNumber r k < r'.mFirstChunk ∧ r'.mFirstChunk ≤ chunkNumber r' k') := by
  obtain ⟨rest, hr, hl, hk, hlt⟩ := rangeOf_spec h
  have hinv : rangeScan.inv {} := ⟨Nat.le_refl 0, Nat.zero_le _⟩
  have hres : r.find k' rest = (.OK, r') := by
    rw [range_find_eq, rangeScan.run_resume hr hinv (Nat.le_trans hk hle), ← range_find_eq]
    exact h'
  rcases Nat.lt_or_ge k' r.mStopChunkSampleIndex with hlt' | hge
  · left
    rw [ChunkRange.find_of_lt hlt'] at hres
    cases hres
    rfl
  · right
    refine ⟨?_, Nat.le_add_left _ _⟩
    cases hr : rest.head? with
    | none =>
      obtain rfl : rest = [] := List.head?_eq_none_iff.mp hr
      simp [ChunkRange.find, Nat.not_lt.mpr hge] at hres
    | some next =>
      obtain ⟨hs, hpos, hfc, hcount⟩ := hl.stop next hr
      have hstart := startChunk_le_of_find hres hge hr
      have hdiv : (k - r.mFirstChunkSampleIndex) / r.mSamplesPerChunk <
          r.mStopChunk - r.mFirstChunk := by
        rw [Nat.div_lt_iff_lt_mul hpos]
        omega
      rw [chunkNumber]
      omega

/-- A chunk's wrapped number tells its range and its place in it. -/
theorem chunkOf_inj {k' : Nat} {r' : ChunkRange} (h : T.rangeOf k = (.OK, r))
    (h' : T.rangeOf k' = (.OK, r')) (hk : k < 2^32) (hk' : k' < 2^32)
    (heq : Seeker.chunkOf r k = Seeker.chunkOf r' k') :
    r = r' ∧ (k - r.mFirstChunkSampleIndex) / r.mSamplesPerChunk =
      (k' - r.mFirstChunkSampleIndex) / r.mSamplesPerChunk := by
  have hr := chunkNumber_range h
  have hr' := chunkNumber_range h'
  have hnum : chunkNumber r k = chunkNumber r' k' := by
    change chunkNumber r k % 2^32 = chunkNumber r' k' % 2^32 at heq
    omega
  have hsame : r = r' := by
    rcases Nat.le_total k k' with hle | hle
    · rcases rangeOf_mono h h' hle with hs | hs
      · exact hs
      · omega
    · rcases rangeOf_mono h' h hle with hs | hs
      · exact hs.symm
      · omega
  subst hsame
  refine ⟨rfl, ?_⟩
  rw [chunkNumber, chunkNumber] at hnum
  omega

end MediaFramework.Mp4
