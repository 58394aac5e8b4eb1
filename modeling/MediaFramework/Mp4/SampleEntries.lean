import MediaFramework.Mp4.SampleHistory
import MediaFramework.Mp4.SampleTimes
import Mathlib.Data.List.Sort
import Mathlib.Logic.Function.Basic

/-!
# The table of composition times

`SampleTable::buildSampleEntriesTable` (`media/extractors/mp4/SampleTable.cpp`) computes the
composition times of all samples in one pass over `stts`, with a running time that is
clamped where an offset would make it overflow, and sorts them. It is compared with the
time that the iterator reports for one sample.
-/

namespace MediaFramework.Mp4

open RunLength

structure SampleTimeEntry where
  mSampleIndex : Nat
  mCompositionTime : Nat
  deriving DecidableEq, Repr

def kMaxTotalSize : Nat := 200 * 2^20

/-- `sizeof(SampleTimeEntry)`. -/
def sizeofSampleTimeEntry : Nat := 16

/-- The variables of the loop. `entries` is the allocated memory. -/
structure EntryBuilder where
  sampleIndex : Nat := 0
  sampleTime : Nat := 0
  lookup : CompositionDeltaLookup
  entries : Nat → SampleTimeEntry

/-- The running time and the offset to apply to it, after clamping. -/
def clampOffset (sampleTime : Nat) (compTimeDelta : BitVec 32) : Nat × BitVec 32 :=
  let delta := compTimeDelta.toInt
  if (delta < 0 ∧ sampleTime < if delta = INT32_MIN then INT32_MAX else (-delta).toNat) ∨
      (0 < delta ∧ UINT64_MAX - delta.toNat < sampleTime) then
    (if delta < 0 then 0 else UINT64_MAX, 0)
  else (sampleTime, compTimeDelta)

/-- `sampleTime + compTimeDelta` or `sampleTime - (-compTimeDelta)`. -/
def shiftedTime (sampleTime : Nat) (compTimeDelta : BitVec 32) : Nat :=
  if 0 < compTimeDelta.toInt then (sampleTime + compTimeDelta.toInt.toNat) % 2^64
  else (sampleTime + 2^64 - ((-compTimeDelta).signExtend 64).toNat) % 2^64

namespace SampleTable

variable (T : SampleTable)

/-- The part of the loop body for a sample that has an entry. -/
def addEntry (b : EntryBuilder) : EntryBuilder :=
  let (compTimeDelta, lookup) := T.getCompositionTimeOffset b.lookup b.sampleIndex
  let (sampleTime, compTimeDelta) := clampOffset b.sampleTime compTimeDelta
  { b with
    sampleTime := sampleTime
    lookup := lookup
    entries := Function.update b.entries b.sampleIndex
      ⟨b.sampleIndex, shiftedTime sampleTime compTimeDelta⟩ }

/-- The body of the inner loop, for a sample with duration `delta`. -/
def addSample (b : EntryBuilder) (delta : Nat) : EntryBuilder :=
  let b := if b.sampleIndex < T.mNumSampleSizes.toNat then T.addEntry b else b
  { b with
    sampleIndex := (b.sampleIndex + 1) % 2^32
    sampleTime := if UINT64_MAX - delta < b.sampleTime then UINT64_MAX else b.sampleTime + delta }

/-- The inner loop. -/
def addSamples (delta : Nat) : Nat → EntryBuilder → EntryBuilder
  | 0, b => b
  | n + 1, b => addSamples delta n (T.addSample b delta)

end SampleTable

/-- The part of the table that `buildSampleEntriesTable` changes. -/
structure TimeTable where
  mTotalSize : Nat := 0
  mSampleTimeEntries : Option (List SampleTimeEntry) := none
  lookup : CompositionDeltaLookup := {}

/-- `memory` is what the allocation returns, with its contents; `qsort` sorts by increasing
composition time, in some order among equal ones. -/
def TimeTable.buildSampleEntriesTable (T : SampleTable)
    (qsort : List SampleTimeEntry → List SampleTimeEntry)
    (memory : Option (Nat → SampleTimeEntry)) (t : TimeTable) : TimeTable :=
  if t.mSampleTimeEntries.isSome ∨ T.mNumSampleSizes.toNat = 0 then t
  else
    let t := { t with
      mTotalSize := (t.mTotalSize + T.mNumSampleSizes.toNat * sizeofSampleTimeEntry) % 2^64 }
    if kMaxTotalSize < t.mTotalSize then t
    else
      match memory with
      | none => t
      | some raw =>
        let b := T.mTimeToSample.foldl
          (fun b e => T.addSamples e.duration.toNat e.count.toNat b)
          { lookup := t.lookup, entries := raw }
        { t with
          mSampleTimeEntries :=
            some (qsort ((List.range T.mNumSampleSizes.toNat).map b.entries))
          lookup := b.lookup }

variable {T : SampleTable} {k : Nat}

/-! ### The loop, sample by sample -/

theorem addSamples_eq (delta n : Nat) (b : EntryBuilder) :
    T.addSamples delta n b = (List.replicate n delta).foldl T.addSample b := by
  induction n generalizing b with
  | zero => rfl
  | succ n ih => exact ih _

theorem foldl_addSamples (es : List TimeToSampleEntry) (b : EntryBuilder) :
    es.foldl (fun b e => T.addSamples e.duration.toNat e.count.toNat b) b =
      (expand (es.map fun e => (e.count.toNat, e.duration.toNat))).foldl T.addSample b := by
  induction es generalizing b with
  | nil => rfl
  | cons e es ih =>
    rw [List.foldl_cons, List.map_cons, expand_cons, List.foldl_append, ← addSamples_eq]
    exact ih _

/-- The loop after `i` samples. -/
def SampleTable.built (T : SampleTable) (b : EntryBuilder) (i : Nat) : EntryBuilder :=
  (T.durations.take i).foldl T.addSample b

theorem built_succ (b : EntryBuilder) {i : Nat} (h : i < T.durations.length) :
    T.built b (i + 1) = T.addSample (T.built b i) T.durations[i] := by
  rw [SampleTable.built, List.take_succ_eq_append_getElem h, List.foldl_append]
  rfl

/-- Below this running time, an offset is clamped. -/
def clampBelow (compTimeDelta : BitVec 32) : Nat :=
  if compTimeDelta.toInt < 0 then
    if compTimeDelta.toInt = INT32_MIN then INT32_MAX else (-compTimeDelta.toInt).toNat
  else 0

theorem clampOffset_eq {time : Nat} (htime : time + 2^32 < 2^64) (offset : BitVec 32) :
    clampOffset time offset = if time < clampBelow offset then (0, 0) else (time, offset) := by
  have hM : UINT64_MAX = 2^64 - 1 := rfl
  have hhi := BitVec.toInt_lt (x := offset)
  simp only [clampOffset, clampBelow]
  by_cases hneg : offset.toInt < 0
  · simp only [if_pos hneg]
    by_cases hlt : time < if offset.toInt = INT32_MIN then INT32_MAX else (-offset.toInt).toNat
    · rw [if_pos (.inl ⟨hneg, hlt⟩), if_pos hlt]
    · rw [if_neg (by omega), if_neg hlt]
  · simp only [if_neg hneg, Nat.not_lt_zero, if_false]
    rw [if_neg (by omega)]

/-- The time stored for a sample with the given running time and offset. -/
def entryTime (sampleTime : Nat) (offset : BitVec 32) : Nat :=
  shiftedTime (clampOffset sampleTime offset).1 (clampOffset sampleTime offset).2

theorem addEntry_spec {b : EntryBuilder} (h : b.lookup.Parked T) :
    ∃ l : CompositionDeltaLookup, l.Parked T ∧ T.addEntry b = { b with
      sampleTime := (clampOffset b.sampleTime (T.deltas.getD b.sampleIndex 0)).1
      lookup := l
      entries := Function.update b.entries b.sampleIndex
        ⟨b.sampleIndex, entryTime b.sampleTime (T.deltas.getD b.sampleIndex 0)⟩ } := by
  obtain ⟨hoff, hl⟩ := getCompositionTimeOffset_spec h b.sampleIndex
  refine ⟨_, hl, ?_⟩
  simp only [SampleTable.addEntry, hoff, deltaOf_eq]
  rfl

/-- The loop variables after `i` samples, but for the running time. -/
structure BuiltTo (T : SampleTable) (i : Nat) (b : EntryBuilder) : Prop where
  index : b.sampleIndex = i % 2^32
  lookup : b.lookup.Parked T
  written : ∀ m < T.mNumSampleSizes.toNat, m < i → (b.entries m).mSampleIndex = m

theorem BuiltTo.addSample {i : Nat} {b : EntryBuilder} (h : BuiltTo T i b) (delta : Nat) :
    BuiltTo T (i + 1) (T.addSample b delta) := by
  have hnum := T.mNumSampleSizes.isLt
  have hindex := h.index
  simp only [SampleTable.addSample]
  split
  · next hlt =>
    obtain ⟨l, hl, heq⟩ := addEntry_spec h.lookup
    rw [heq]
    refine ⟨by simp only; omega, hl, fun m hm hmi => ?_⟩
    simp only
    by_cases hmb : m = b.sampleIndex
    · rw [hmb, Function.update_self]
    · rw [Function.update_of_ne hmb]
      exact h.written m hm (by omega)
  · next hge =>
    refine ⟨by simp only; omega, h.lookup, fun m hm hmi => ?_⟩
    exact h.written m hm (by omega)

theorem builtTo_built {b : EntryBuilder} (h : BuiltTo T 0 b) {i : Nat}
    (hi : i ≤ T.durations.length) : BuiltTo T i (T.built b i) := by
  induction i with
  | zero => exact h
  | succ i ih =>
    rw [built_succ b hi]
    exact (ih (Nat.le_of_succ_le hi)).addSample _

/-- The entry of a sample is stored when the loop reaches it, and is stored again only after
the 32-bit sample index has come round. -/
theorem built_entry {b : EntryBuilder} (h : BuiltTo T 0 b) (hk : k < T.mNumSampleSizes.toNat)
    {i : Nat} (hi : i ≤ T.durations.length) (hki : k < i) (hround : i ≤ 2^32 + k) :
    (T.built b i).entries k =
      ⟨k, entryTime (T.built b k).sampleTime (T.deltas.getD k 0)⟩ := by
  have hnum := T.mNumSampleSizes.isLt
  induction i with
  | zero => omega
  | succ i ih =>
    have hb := builtTo_built h (Nat.le_of_succ_le hi)
    have hindex := hb.index
    rw [built_succ b hi]
    obtain ⟨l, -, heq⟩ := addEntry_spec hb.lookup
    -- a sample after `k` has another index, as fewer than `2^32` have gone by since
    rcases Nat.lt_or_eq_of_le (Nat.le_of_lt_succ hki) with hlt | rfl
    · have hne : k ≠ (T.built b i).sampleIndex := by omega
      rw [← ih (Nat.le_of_succ_le hi) hlt (by omega)]
      simp only [SampleTable.addSample]
      split
      · rw [heq]
        exact Function.update_of_ne hne _ _
      · rfl
    · have hself : (T.built b k).sampleIndex = k := by omega
      simp only [SampleTable.addSample]
      rw [if_pos (by omega), heq, hself]
      exact Function.update_self _ _ _

/-! ### The running time -/

/-- Sample `j` is clamped although time has passed before it. -/
def Leaks (T : SampleTable) (j : Nat) : Prop :=
  0 < T.decodeTime j ∧ T.decodeTime j < clampBelow (T.deltas.getD j 0)

instance (j : Nat) : Decidable (Leaks T j) := inferInstanceAs (Decidable (_ ∧ _))

theorem decodeTime_succ {i : Nat} (h : i < T.durations.length) :
    T.decodeTime (i + 1) = T.decodeTime i + T.durations[i] :=
  List.sum_take_succ _ _ h

/-- The running time never exceeds the decode time, and falls behind it at the first sample
that is clamped after time has passed. -/
theorem built_time {b : EntryBuilder} (h : BuiltTo T 0 b) (h0 : b.sampleTime = 0) {i : Nat}
    (hi : i ≤ T.durations.length) (hnum : i ≤ T.mNumSampleSizes.toNat) :
    (T.built b i).sampleTime ≤ T.decodeTime i ∧
      ((T.built b i).sampleTime = T.decodeTime i ↔ ∀ j < i, ¬Leaks T j) := by
  have hlt32 := T.mNumSampleSizes.isLt
  induction i with
  | zero =>
    refine ⟨Nat.le_of_eq h0, fun _ j hj => absurd hj (Nat.not_lt_zero j), fun _ => h0⟩
  | succ i ih =>
    obtain ⟨hle, hiff⟩ := ih (Nat.le_of_succ_le hi) (Nat.le_of_succ_le hnum)
    have hb := builtTo_built h (Nat.le_of_succ_le hi)
    have hindex : (T.built b i).sampleIndex = i := hb.index.trans (Nat.mod_eq_of_lt (by omega))
    have hbound := decodeTime_lt T (show i < 2^32 by omega)
    have hd := duration_le (List.getElem_mem hi)
    have hM : UINT32_MAX = 2^32 - 1 := rfl
    have hM' : UINT64_MAX = 2^64 - 1 := rfl
    obtain ⟨l, -, heq⟩ := addEntry_spec hb.lookup
    rw [hindex, clampOffset_eq (by omega)] at heq
    -- a clamped sample resets the running time before its duration is added
    have htime : (T.built b (i + 1)).sampleTime =
        (if (T.built b i).sampleTime < clampBelow (T.deltas.getD i 0) then 0
          else (T.built b i).sampleTime) + T.durations[i] := by
      have hin : (T.built b i).sampleIndex < T.mNumSampleSizes.toNat := by omega
      rw [built_succ b hi]
      simp only [SampleTable.addSample, if_pos hin, heq]
      split <;> exact if_neg (by simp only; omega)
    rw [htime, decodeTime_succ hi, Nat.forall_lt_succ_right, ← hiff, Leaks]
    split <;> omega

/-! ### The two times of a sample -/

theorem shiftedTime_eq {time : Nat} {offset : BitVec 32} (htime : time + 2^32 < 2^64)
    (h : clampBelow offset ≤ time) :
    (shiftedTime time offset : Int) =
      if offset.toInt = INT32_MIN then (time : Int) + 2^31 else time + offset.toInt := by
  have hmin : INT32_MIN = -2^31 := rfl
  have hhi := BitVec.toInt_lt (x := offset)
  rw [clampBelow] at h
  rw [shiftedTime]
  rcases Int.lt_or_le 0 offset.toInt with hpos | hneg
  · rw [if_pos hpos, if_neg (by omega)]
    omega
  · rw [if_neg (by omega), neg_signExtend_toNat offset hneg]
    by_cases hm : offset.toInt = INT32_MIN
    · rw [if_pos hm, if_pos hm]
      omega
    · rw [if_neg hm, if_neg hm]
      rw [if_neg hm] at h
      split at h <;> omega

/-- Where the iterator accepts an offset, the table does not clamp it. -/
theorem compositionTime_eq_some {time reported : Nat} {offset : BitVec 32}
    (htime : time + 2^32 < 2^64) (h : compositionTime time offset = some reported) :
    clampBelow offset ≤ time ∧ reported = shiftedTime time offset ∧
      (offset.toInt = INT32_MIN → INT64_MAX ≤ time) := by
  have hmin : INT32_MIN = -2^31 := rfl
  have hM : INT64_MAX = 2^63 - 1 := rfl
  have hM' : INT32_MAX = 2^31 - 1 := rfl
  have hhi := BitVec.toInt_lt (x := offset)
  simp only [compositionTime] at h
  -- `INT32_MIN` is checked against `INT64_MAX` and then negated to itself
  by_cases hm : offset.toInt = INT32_MIN
  · simp only [if_pos hm, if_neg (show ¬0 < offset.toInt by omega)] at h
    rw [clampBelow, if_pos hm, if_pos (by omega), shiftedTime, if_neg (by omega)]
    split at h
    · cases h
    · exact ⟨by omega, (Option.some.inj h).symm, fun _ => by omega⟩
  · simp only [if_neg hm] at h
    rw [clampBelow, if_neg hm, shiftedTime]
    split at h
    · cases h
    · next hok =>
      refine ⟨by split <;> omega, ?_, fun hm' => absurd hm' hm⟩
      split at h
      · next hpos => rw [if_pos hpos, ← Option.some.inj h, Nat.mod_eq_of_lt (by omega)]
      · next hneg => rw [if_neg hneg, Option.some.inj h]

/-- The table has the time that the iterator reports if the running time is the decode time.
With a smaller running time it has another one, unless the time is 0, where the entry is
clamped to it. -/
theorem entryTime_eq_iff {running time reported : Nat} {offset : BitVec 32}
    (htime : time + 2^32 < 2^64) (hle : running ≤ time)
    (hrep : compositionTime time offset = some reported) :
    entryTime running offset = reported ↔ running = time ∨ (time : Int) + offset.toInt = 0 := by
  have hmin : INT32_MIN = -2^31 := rfl
  have hM : INT64_MAX = 2^63 - 1 := rfl
  obtain ⟨hcb, hreported, hleast⟩ := compositionTime_eq_some htime hrep
  have hshift := shiftedTime_eq htime hcb
  rw [← hreported] at hshift
  rw [entryTime, clampOffset_eq (by omega)]
  split
  · next hlt =>
    -- clamped: the entry is at time 0, whatever the running time was
    have hzero : shiftedTime 0 0 = 0 := by decide
    rw [hzero]
    split at hshift <;> omega
  · next hge =>
    have hshift' := shiftedTime_eq (show running + 2^32 < 2^64 by omega) (Nat.not_lt.mp hge)
    have hcut : offset.toInt ≠ INT32_MIN → (-offset.toInt).toNat ≤ running := by
      intro hm
      rw [clampBelow, if_neg hm] at hge
      split at hge <;> omega
    simp only
    split at hshift <;> split at hshift' <;> omega

/-- A time that the iterator reports is the time of the sample. -/
theorem timeOf_of_reported {s s' : Seeker} (h : CursorsParked T s)
    (hf : Seeker.findSampleTimeAndDuration T s k = (.OK, s')) :
    k < T.mNumSampleSizes.toNat ∧ ∃ duration, T.timeOf k = some (s'.it.mCurrentSampleTime, duration) := by
  have hk : k < T.mNumSampleSizes.toNat := by
    by_contra hge
    rw [Seeker.findSampleTimeAndDuration, if_pos (Nat.not_lt.mp hge)] at hf
    cases hf
  have hbase : s.it.mTTSSampleIndex ≤ k := by
    by_contra hlt
    have hnone : s.it.toTimeRun.decodeTime k = none := by
      rw [TimeRun.decodeTime, if_pos (Nat.not_le.mp hlt)]
    simp only [Seeker.findSampleTimeAndDuration, if_neg (Nat.not_le.mpr hk),
      TimeRun.find_of_lt (Nat.lt_of_lt_of_le (Nat.not_le.mp hlt) (Nat.le_add_right _ _)), hnone] at hf
    split at hf <;> cases hf
  obtain ⟨run, lookup, time, duration, heq, -, -, htime⟩ := findSampleTimeAndDuration_spec h hk hbase
  rw [hf] at heq
  refine ⟨hk, ?_⟩
  cases ht : T.timeOf k with
  | none =>
    rw [ht] at heq
    cases heq
  | some p =>
    obtain ⟨rfl, -⟩ := htime p ht
    rw [ht] at heq
    cases heq
    exact ⟨p.2, rfl⟩

/-- The memory of the finished loop holds one entry for each sample. -/
theorem BuiltTo.filter_eq {i : Nat} {b : EntryBuilder} (h : BuiltTo T i b)
    (hi : T.mNumSampleSizes.toNat ≤ i) (hk : k < T.mNumSampleSizes.toNat) :
    ((List.range T.mNumSampleSizes.toNat).map b.entries).filter (·.mSampleIndex = k) =
      [b.entries k] := by
  have hindex : ∀ m ∈ List.range T.mNumSampleSizes.toNat,
      ((fun e : SampleTimeEntry => decide (e.mSampleIndex = k)) ∘ b.entries) m = decide (m = k) := by
    intro m hm
    have hm' := List.mem_range.mp hm
    simp only [Function.comp_apply, h.written m hm' (Nat.lt_of_lt_of_le hm' hi)]
  rw [List.filter_map, List.filter_congr hindex, List.filter_eq, List.count_range, if_pos hk]
  rfl

/-- The table that is built, before it is sorted. -/
theorem buildSampleEntriesTable_spec {qsort : List SampleTimeEntry → List SampleTimeEntry}
    {memory : Option (Nat → SampleTimeEntry)} {t : TimeTable} {entries : List SampleTimeEntry}
    (hl : t.lookup.Parked T) (hfresh : t.mSampleTimeEntries = none)
    (h : (t.buildSampleEntriesTable T qsort memory).mSampleTimeEntries = some entries) :
    ∃ b : EntryBuilder, BuiltTo T 0 b ∧ b.sampleTime = 0 ∧
      entries = qsort ((List.range T.mNumSampleSizes.toNat).map
        (T.built b T.durations.length).entries) := by
  simp only [TimeTable.buildSampleEntriesTable] at h
  split at h
  · rw [hfresh] at h
    cases h
  split at h
  · simp only [hfresh] at h
    cases h
  cases memory with
  | none =>
    simp only [hfresh] at h
    cases h
  | some raw =>
    simp only [Option.some.injEq] at h
    refine ⟨{ lookup := t.lookup, entries := raw }, ?_, rfl, ?_⟩
    · exact ⟨rfl, hl, fun m _ hm => absurd hm (Nat.not_lt_zero m)⟩
    · rw [← h, foldl_addSamples, SampleTable.built, List.take_length]
      rfl

/-- The table has exactly one entry for a sample that the iterator finds a time for. It has
the same time, exactly if no earlier sample was clamped after time had passed or the time
is 0; provided that `stts` does not go on until the sample index comes round. -/
theorem entryTime_eq_reported_iff {qsort : List SampleTimeEntry → List SampleTimeEntry}
    (hsort : ∀ l, (qsort l).Perm l) {memory : Option (Nat → SampleTimeEntry)} {t : TimeTable}
    {entries : List SampleTimeEntry} (hl : t.lookup.Parked T)
    (hfresh : t.mSampleTimeEntries = none)
    (hbuild : (t.buildSampleEntriesTable T qsort memory).mSampleTimeEntries = some entries)
    (hstts : T.mNumSampleSizes.toNat ≤ T.durations.length) {s s' : Seeker}
    (hs : CursorsParked T s) (hf : Seeker.findSampleTimeAndDuration T s k = (.OK, s'))
    (hround : T.durations.length ≤ 2^32 + k) :
    ∃ e, entries.filter (·.mSampleIndex = k) = [e] ∧
      (e.mCompositionTime = s'.it.mCurrentSampleTime ↔
        (∀ j < k, ¬Leaks T j) ∨ (T.decodeTime k : Int) + T.compositionOffset k = 0) := by
  obtain ⟨hk, duration, htime⟩ := timeOf_of_reported hs hf
  obtain ⟨b, hb, h0, rfl⟩ := buildSampleEntriesTable_spec hl hfresh hbuild
  have hk' : k < 2^32 := Nat.lt_trans hk T.mNumSampleSizes.isLt
  rw [timeOf_eq T hk'] at htime
  split at htime
  · obtain ⟨reported, hrep, hpair⟩ := Option.map_eq_some_iff.mp htime
    obtain rfl : reported = s'.it.mCurrentSampleTime := congrArg Prod.fst hpair
    obtain ⟨hle, hiff⟩ := built_time hb h0 (Nat.le_trans (Nat.le_of_lt hk) hstts) (Nat.le_of_lt hk)
    refine ⟨(T.built b T.durations.length).entries k, ?_, ?_⟩
    · have hperm := (hsort ((List.range T.mNumSampleSizes.toNat).map
        (T.built b T.durations.length).entries)).filter (·.mSampleIndex = k)
      rw [(builtTo_built hb (Nat.le_refl _)).filter_eq hstts hk] at hperm
      exact List.perm_singleton.mp hperm
    · rw [built_entry hb hk (Nat.le_refl _) (Nat.lt_of_lt_of_le hk hstts) hround]
      rw [← hiff]
      exact entryTime_eq_iff (decodeTime_lt T hk') hle hrep
  · cases htime

/-- Three samples of duration 10, the second of which is to be shown earlier. -/
def secondEarlier (delta : BitVec 32) : SampleTable where
  readAt _ _ := []
  mChunkOffsetOffset := 0
  mChunkOffsetType := .kChunkOffsetType32
  mNumChunkOffsets := 1
  mSampleToChunkOffset := 0
  mSampleToChunkEntries := [⟨0, 3, 1⟩]
  mSampleSizeOffset := 0
  mSampleSizeFieldSize := .bits32
  mDefaultSampleSize := 1
  mNumSampleSizes := 3
  mTimeToSample := [⟨3, 10⟩]
  mCompositionTimeDeltaEntries := [⟨1, 0⟩, ⟨1, delta⟩]

/-- Sorts as `qsort` with `CompareIncreasingTime` may. -/
def sortByTime (entries : List SampleTimeEntry) : List SampleTimeEntry :=
  entries.insertionSort fun a b => a.mCompositionTime ≤ b.mCompositionTime

theorem entryTime_eq_reported_iff_secondEarlier :
    ∃ entries e s, (TimeTable.buildSampleEntriesTable (secondEarlier (-10)) sortByTime
        (some fun _ => ⟨7, 7⟩) {}).mSampleTimeEntries = some entries ∧
      Seeker.findSampleTimeAndDuration (secondEarlier (-10)) {} 2 = (.OK, s) ∧
      entries.filter (·.mSampleIndex = 2) = [e] ∧
      e.mCompositionTime = s.it.mCurrentSampleTime := by
  obtain ⟨entries, hbuild⟩ : ∃ entries, (TimeTable.buildSampleEntriesTable (secondEarlier (-10))
      sortByTime (some fun _ => ⟨7, 7⟩) {}).mSampleTimeEntries = some entries := ⟨_, rfl⟩
  obtain ⟨s, hf⟩ : ∃ s, Seeker.findSampleTimeAndDuration (secondEarlier (-10)) {} 2 = (.OK, s) :=
    ⟨_, rfl⟩
  obtain ⟨e, he, hiff⟩ := entryTime_eq_reported_iff (List.perm_insertionSort _) ⟨_, .start⟩ rfl
    hbuild (by decide) ⟨⟨_, .start⟩, ⟨_, .start⟩⟩ hf (by decide)
  exact ⟨entries, e, s, hbuild, hf, he, hiff.mpr (.inl (by decide))⟩

/-- An offset of -100 on the second sample sets the running time back to 0, and the third
sample gets the time 10 in the table where the iterator reports 20. -/
theorem clamped_sample_shifts_next :
    ∃ s, (TimeTable.buildSampleEntriesTable (secondEarlier (-100)) sortByTime
        (some fun _ => ⟨7, 7⟩) {}).mSampleTimeEntries = some [⟨0, 0⟩, ⟨1, 0⟩, ⟨2, 10⟩] ∧
      Seeker.findSampleTimeAndDuration (secondEarlier (-100)) {} 2 = (.OK, s) ∧
      s.it.mCurrentSampleTime = 20 := by
  exact ⟨_, by decide, rfl, by decide⟩

end MediaFramework.Mp4
