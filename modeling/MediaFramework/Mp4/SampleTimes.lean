import MediaFramework.Lib.RunLength
import MediaFramework.Mp4.SampleLookup
import Mathlib.Algebra.Order.BigOperators.Group.List
import Mathlib.Algebra.Order.Ring.Nat

/-!
# Sample times

`stts` and `ctts` as tables with one duration and one composition offset a sample, and what
the lookup finds in them.
-/

namespace MediaFramework.Mp4

open RunLength

namespace SampleTable

variable (T : SampleTable)

/-- `stts` as runs. -/
def timeRuns : List (Nat × Nat) := T.mTimeToSample.map fun e => (e.count.toNat, e.duration.toNat)

/-- The duration of every sample that `stts` describes. -/
def durations : List Nat := expand T.timeRuns

/-- The durations of the samples before a sample. -/
def decodeTime (k : Nat) : Nat := (T.durations.take k).sum

/-- The number of samples that `stts` describes up to the end of a sample's run. -/
def timeRunEnd (k : Nat) : Nat := runEnd k T.timeRuns

/-- The composition offset of every sample that `ctts` describes. -/
def deltas : List (BitVec 32) :=
  expand (T.mCompositionTimeDeltaEntries.map fun e => (e.count.toNat, e.delta))

/-- The composition offset of a sample, 0 beyond the end of `ctts`. -/
def compositionOffset (k : Nat) : Int := (T.deltas.getD k 0).toInt

end SampleTable

variable {T : SampleTable} {k : Nat}

theorem delta_find_expand (es : List CompositionDeltaEntry) (l : CompositionDeltaLookup)
    (h : l.mCurrentEntrySampleIndex ≤ k) :
    (l.find k es).1 = (expand (es.map fun e => (e.count.toNat, e.delta))).getD
      (k - l.mCurrentEntrySampleIndex) 0 := by
  induction es generalizing l with
  | nil => rfl
  | cons e es ih =>
    rw [List.map_cons, CompositionDeltaLookup.find]
    split
    · next hlt => rw [getD_expand_of_lt (by omega)]
    · next hge => rw [getD_expand_of_ge (by omega), ih _ (by simpa using hge), Nat.sub_sub]

theorem deltaOf_eq (T : SampleTable) (k : Nat) : T.deltaOf k = T.deltas.getD k 0 :=
  delta_find_expand _ _ (Nat.zero_le k)

/-! ### Runs of durations -/

/-- A run with 32-bit count and duration, whose start time 32-bit durations can reach. -/
structure TimeRun.Small (c : TimeRun) : Prop where
  count : c.mTTSCount ≤ UINT32_MAX
  duration : c.mTTSDuration ≤ UINT32_MAX
  time : c.mTTSSampleTime ≤ c.mTTSSampleIndex * UINT32_MAX

/-- The run itself and the entries after it. -/
def TimeRun.runs (c : TimeRun) (rest : List TimeToSampleEntry) : List (Nat × Nat) :=
  (c.mTTSCount, c.mTTSDuration) :: rest.map fun e => (e.count.toNat, e.duration.toNat)

theorem TimeRun.Small.endTime_le {c : TimeRun} (h : c.Small) :
    c.mTTSSampleTime + c.mTTSCount * c.mTTSDuration ≤
      (c.mTTSSampleIndex + c.mTTSCount) * UINT32_MAX := by
  rw [Nat.add_mul]
  exact Nat.add_le_add h.time (Nat.mul_le_mul_left _ h.duration)

theorem TimeRun.Small.decodeTime {c : TimeRun} (h : c.Small) (hk : k < 2^32)
    (hle : c.mTTSSampleIndex ≤ k) :
    c.decodeTime k = some (c.mTTSSampleTime + (k - c.mTTSSampleIndex) * c.mTTSDuration) := by
  have hM : UINT32_MAX = 2^32 - 1 := rfl
  have hM' : UINT64_MAX = 2^64 - 1 := rfl
  have hbound : c.mTTSSampleTime + (k - c.mTTSSampleIndex) * c.mTTSDuration ≤ k * UINT32_MAX :=
    calc c.mTTSSampleTime + (k - c.mTTSSampleIndex) * c.mTTSDuration
        ≤ c.mTTSSampleIndex * UINT32_MAX + (k - c.mTTSSampleIndex) * UINT32_MAX :=
          Nat.add_le_add h.time (Nat.mul_le_mul_left _ h.duration)
      _ = k * UINT32_MAX := by rw [← Nat.add_mul, Nat.add_sub_cancel' hle]
  rw [TimeRun.decodeTime, if_neg (Nat.not_lt.mpr hle), Nat.mul_comm c.mTTSDuration]
  rw [hM] at hbound
  simp only
  rw [if_neg (by omega)]

theorem TimeRun.find_of_lt {c : TimeRun} (hlt : k < c.mTTSSampleIndex + c.mTTSCount)
    (rest : List TimeToSampleEntry) :
    c.find k rest = (decide (¬UINT32_MAX - c.mTTSCount < c.mTTSSampleIndex), c) := by
  cases rest with
  | nil =>
    simp only [TimeRun.find]
    split
    · next h => simp [h]
    · next h => simp [h, hlt]
  | cons e rest =>
    simp only [TimeRun.find, if_pos hlt]
    split
    · next h => simp [h]
    · next h => simp [h]

/-- The run after `c`. -/
def TimeRun.next (c : TimeRun) (e : TimeToSampleEntry) : TimeRun where
  mTimeToSampleIndex := c.mTimeToSampleIndex + 1
  mTTSSampleIndex := c.mTTSSampleIndex + c.mTTSCount
  mTTSSampleTime := c.mTTSSampleTime + c.mTTSCount * c.mTTSDuration
  mTTSCount := e.count.toNat
  mTTSDuration := e.duration.toNat

theorem TimeRun.Small.next {c : TimeRun} (h : c.Small) (e : TimeToSampleEntry) : (c.next e).Small where
  count := Nat.le_pred_of_lt e.count.isLt
  duration := Nat.le_pred_of_lt e.duration.isLt
  time := h.endTime_le

/-- Below `2^32` samples the checks on the way to the next run are about the sample index only. -/
theorem TimeRun.Small.find_of_ge {c : TimeRun} (h : c.Small) (hk : k < 2^32)
    (hge : c.mTTSSampleIndex + c.mTTSCount ≤ k) (e : TimeToSampleEntry)
    (rest : List TimeToSampleEntry) :
    c.find k (e :: rest) = (c.next e).find k rest := by
  have hM : UINT32_MAX = 2^32 - 1 := rfl
  have hM' : UINT64_MAX = 2^64 - 1 := rfl
  have hcount := h.count
  have hend := h.endTime_le
  have hmul : c.mTTSCount * c.mTTSDuration ≤ UINT32_MAX * UINT32_MAX :=
    Nat.mul_le_mul hcount h.duration
  have hmod : c.mTTSCount * c.mTTSDuration % 2^64 = c.mTTSCount * c.mTTSDuration :=
    Nat.mod_eq_of_lt (by rw [hM] at hmul; omega)
  have hdiv : ¬(c.mTTSDuration ≠ 0 ∧ UINT64_MAX / c.mTTSDuration < c.mTTSCount) := by
    rintro ⟨hd, hlt⟩
    rw [Nat.div_lt_iff_lt_mul (Nat.pos_of_ne_zero hd)] at hlt
    rw [hM] at hmul
    omega
  have htime : ¬UINT64_MAX - c.mTTSCount * c.mTTSDuration < c.mTTSSampleTime := by
    have hk' := Nat.mul_le_mul_right UINT32_MAX hge
    rw [hM] at hend hk'
    omega
  rw [TimeRun.find, if_neg (by omega), if_neg (Nat.not_lt.mpr hge), hmod,
    if_neg (not_or.mpr ⟨hdiv, htime⟩)]
  rfl

/-- The search for a sample's run from `c` on: it succeeds exactly for the samples that the
runs describe, if the sample's run ends within 32 bits. -/
def TimeRun.Finds (c : TimeRun) (k : Nat) (rest : List TimeToSampleEntry) : Prop :=
  if k - c.mTTSSampleIndex < (expand (c.runs rest)).length ∧
      c.mTTSSampleIndex + runEnd (k - c.mTTSSampleIndex) (c.runs rest) ≤ UINT32_MAX then
    ∃ c', c.find k rest = (true, c') ∧
      c'.decodeTime k = some (c.mTTSSampleTime +
        ((expand (c.runs rest)).take (k - c.mTTSSampleIndex)).sum) ∧
      c'.mTTSDuration = (expand (c.runs rest)).getD (k - c.mTTSSampleIndex) 0
  else (c.find k rest).1 = false

theorem TimeRun.Small.finds_here {c : TimeRun} (hc : c.Small) (hk : k < 2^32)
    (hle : c.mTTSSampleIndex ≤ k) (hlt : k < c.mTTSSampleIndex + c.mTTSCount)
    (rest : List TimeToSampleEntry) : c.Finds k rest := by
  have hcount := hc.count
  have hlt' : k - c.mTTSSampleIndex < c.mTTSCount := by omega
  rw [TimeRun.Finds, TimeRun.runs, runEnd, if_pos hlt', getD_expand_of_lt hlt',
    sum_take_expand_of_le (Nat.le_of_lt hlt'), TimeRun.find_of_lt hlt]
  split
  · next h =>
    refine ⟨c, ?_, hc.decodeTime hk hle, rfl⟩
    rw [decide_eq_true (by omega)]
  · next h =>
    rw [expand_cons, List.length_append, List.length_replicate] at h
    exact decide_eq_false (by omega)

theorem TimeRun.Small.finds {c : TimeRun} (hc : c.Small) (hk : k < 2^32)
    (hle : c.mTTSSampleIndex ≤ k) (rest : List TimeToSampleEntry) : c.Finds k rest := by
  induction rest generalizing c with
  | nil =>
    rcases Nat.lt_or_ge k (c.mTTSSampleIndex + c.mTTSCount) with hlt | hge
    · exact hc.finds_here hk hle hlt _
    · rw [TimeRun.Finds, if_neg]
      · simp only [TimeRun.find]
        split
        · rfl
        · exact decide_eq_false (Nat.not_lt.mpr hge)
      · rw [TimeRun.runs, List.map_nil, expand_cons, expand_nil, List.append_nil,
          List.length_replicate]
        omega
  | cons e rest ih =>
    rcases Nat.lt_or_ge k (c.mTTSSampleIndex + c.mTTSCount) with hlt | hge
    · exact hc.finds_here hk hle hlt _
    · have hge' : ¬k - c.mTTSSampleIndex < c.mTTSCount := by omega
      have hlen : k - c.mTTSSampleIndex < (expand (c.runs (e :: rest))).length ↔
          k - (c.next e).mTTSSampleIndex < (expand ((c.next e).runs rest)).length := by
        change _ < (List.replicate c.mTTSCount c.mTTSDuration ++
          expand ((c.next e).runs rest)).length ↔ k - (c.mTTSSampleIndex + c.mTTSCount) < _
        rw [List.length_append, List.length_replicate]
        omega
      have hnext : (c.next e).Finds k rest := ih (hc.next e) hge
      have hruns : c.runs (e :: rest) = (c.mTTSCount, c.mTTSDuration) :: (c.next e).runs rest := rfl
      have hsub : k - c.mTTSSampleIndex - c.mTTSCount = k - (c.next e).mTTSSampleIndex :=
        Nat.sub_sub _ _ _
      simp only [TimeRun.Finds, hlen]
      rw [hruns, runEnd, if_neg hge', getD_expand_of_ge (Nat.not_lt.mp hge'),
        sum_take_expand_of_ge (Nat.not_lt.mp hge'), hc.find_of_ge hk hge, hsub, ← Nat.add_assoc,
        ← Nat.add_assoc]
      exact hnext

/-- What the iterator reports for a sample: its decode time shifted by its composition
offset, with its duration. -/
theorem timeOf_eq (T : SampleTable) (hk : k < 2^32) :
    T.timeOf k = if k < T.durations.length ∧ T.timeRunEnd k ≤ UINT32_MAX then
      (compositionTime (T.decodeTime k) (T.deltas.getD k 0)).map (·, T.durations.getD k 0)
    else none := by
  have h := TimeRun.Small.finds (c := {}) ⟨Nat.zero_le _, Nat.zero_le _, Nat.zero_le _⟩ hk
    (Nat.zero_le k) T.mTimeToSample
  simp only [TimeRun.Finds, TimeRun.runs, expand_cons, List.replicate_zero, List.nil_append, runEnd,
    Nat.sub_zero, Nat.not_lt_zero, if_false, Nat.zero_add] at h
  change if k < T.durations.length ∧ T.timeRunEnd k ≤ UINT32_MAX then _ else _ at h
  rw [SampleTable.timeOf, deltaOf_eq]
  split at h
  · next hc =>
    obtain ⟨run, hfind, htime, hduration⟩ := h
    rw [if_pos hc, hfind]
    simp only [htime, hduration, Option.bind_some]
    rfl
  · next hc =>
    rw [if_neg hc]
    generalize TimeRun.find k T.mTimeToSample {} = res at h
    obtain ⟨found, run⟩ := res
    obtain rfl : found = false := h
    rfl

theorem duration_le {d : Nat} (h : d ∈ T.durations) : d ≤ UINT32_MAX := by
  obtain ⟨run, hrun, hd⟩ := List.mem_flatMap.mp h
  obtain ⟨e, -, rfl⟩ := List.mem_map.mp hrun
  rw [List.eq_of_mem_replicate hd]
  exact Nat.le_pred_of_lt e.duration.isLt

/-- Decode times of 32-bit sample numbers leave room for any composition offset. -/
theorem decodeTime_lt (T : SampleTable) (hk : k < 2^32) : T.decodeTime k + 2^32 < 2^64 := by
  have hsum : T.decodeTime k ≤ (T.durations.take k).length • UINT32_MAX :=
    List.sum_le_card_nsmul _ _ fun d hd => duration_le (List.mem_of_mem_take hd)
  have hlen : (T.durations.take k).length ≤ 2^32 - 1 := by
    rw [List.length_take]
    omega
  have hmul := Nat.mul_le_mul_right UINT32_MAX hlen
  have hM : UINT32_MAX = 2^32 - 1 := rfl
  rw [nsmul_eq_mul, Nat.cast_id] at hsum
  rw [hM] at hsum hmul
  omega

/-! ### Composition offsets -/

/-- Negation of an offset as the code sees it: only `INT32_MIN` stays negative. -/
theorem neg_signExtend_toNat (offset : BitVec 32) (h : offset.toInt ≤ 0) :
    ((-offset).signExtend 64).toNat =
      if offset.toInt = INT32_MIN then 2^64 - 2^31 else (-offset.toInt).toNat := by
  have hmin : INT32_MIN = -2^31 := rfl
  have hlt := offset.isLt
  have hint := BitVec.toInt_eq_toNat_cond offset
  rw [BitVec.toNat_signExtend, BitVec.toNat_setWidth, BitVec.msb_eq_decide, BitVec.toNat_neg]
  simp only [decide_eq_true_eq]
  split at hint
  · rw [if_neg (by omega), if_neg (by omega)]
    omega
  · by_cases hm : offset.toInt = INT32_MIN
    · rw [if_pos (by omega), if_pos hm]
      omega
    · rw [if_neg (by omega), if_neg hm]
      omega

theorem compositionTime_eq {time : Nat} {offset : BitVec 32} (htime : time + 2^32 < 2^64)
    (h : offset.toInt ≠ INT32_MIN) :
    compositionTime time offset =
      if 0 ≤ (time : Int) + offset.toInt then some ((time : Int) + offset.toInt).toNat else none := by
  have hM : UINT64_MAX = 2^64 - 1 := rfl
  have hmin : INT32_MIN = -2^31 := rfl
  have hlo := BitVec.le_toInt offset
  have hhi := BitVec.toInt_lt (x := offset)
  simp only [compositionTime, if_neg h]
  rcases Int.lt_or_le 0 offset.toInt with hpos | hneg
  · rw [if_neg (by omega), if_pos hpos, if_pos (by omega)]
    congr 1
    omega
  · rw [neg_signExtend_toNat offset hneg, if_neg h]
    by_cases hfit : 0 ≤ (time : Int) + offset.toInt
    · rw [if_neg (by omega), if_neg (by omega), if_pos hfit]
      congr 1
      omega
    · rw [if_pos (by omega), if_neg hfit]

/-- An offset of `INT32_MIN` is refused or goes the wrong way. -/
theorem compositionTime_min {time t : Nat} {offset : BitVec 32} (htime : time + 2^32 < 2^64)
    (h : offset.toInt = INT32_MIN) (ht : compositionTime time offset = some t) :
    (t : Int) ≠ time + offset.toInt := by
  have hmin : INT32_MIN = -2^31 := rfl
  simp only [compositionTime, if_pos h, if_neg (show ¬0 < offset.toInt by omega),
    neg_signExtend_toNat offset (by omega)] at ht
  split at ht
  · cases ht
  · obtain rfl := Option.some.inj ht
    omega

end MediaFramework.Mp4
