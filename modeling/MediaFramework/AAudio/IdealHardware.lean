import MediaFramework.AAudio.IsochronousClockModel
import MediaFramework.Lib.Truncation
import Mathlib.Tactic.Linarith

/-!
# The clock model against ideal hardware

Hardware that moves a burst at a time, at an exact rate, and the model that is fed with its
timestamps (`media/libaaudio/tests/test_clock_model.cpp`).
-/

namespace MediaFramework.AAudio

open IsochronousClockModel Truncation Word

structure IdealHardware where
  sampleRate : Int
  framesPerBurst : Int
  startPosition : Int
  startTime : Int
  rate_pos : 0 < sampleRate
  burst_pos : 0 < framesPerBurst
  aligned : framesPerBurst ∣ startPosition

namespace IdealHardware

variable (hw : IdealHardware) (m : IsochronousClockModel)

def position (nanoTime : Int) : Int :=
  hw.startPosition + hw.framesPerBurst *
    ((nanoTime - hw.startTime) * hw.sampleRate / (hw.framesPerBurst * AAUDIO_NANOS_PER_SECOND))

/-- The model of a stream on the hardware, started. -/
def started (nanoTime : Int) : IsochronousClockModel :=
  ((m.setSampleRate hw.sampleRate).setFramesPerBurst hw.framesPerBurst).start nanoTime

def feed (nanoTime : Int) : IsochronousClockModel :=
  m.processTimestamp (hw.position nanoTime) nanoTime

/-- What holds of the model before each timestamp that it does not ignore. -/
def AllSteps (P : IsochronousClockModel → Int → Prop) : IsochronousClockModel → List Int → Prop
  | _, [] => True
  | m, nanoTime :: times =>
    (¬m.Ignores nanoTime → P m nanoTime) ∧ AllSteps P (hw.feed m nanoTime) times

/-- After a timestamp, the model is at the position of the hardware. -/
def Right (nanoTime : Int) : Prop :=
  (hw.feed m nanoTime).convertTimeToPosition nanoTime = hw.position nanoTime

def Tracks : IsochronousClockModel → List Int → Prop := hw.AllSteps hw.Right

/-- The times are those of timestamps at least 1000 ns apart, the first of them after `start`. -/
def Spaced (start : Int) (times : List Int) : Prop :=
  (start :: times).IsChain fun before after => before + 1000 ≤ after

/-! ### Frames ahead -/

def framesDelta (nanoTime : Int) : Int := hw.position nanoTime - m.mMarkerFramePosition

def expectedNanosDelta (nanoTime : Int) : Int :=
  m.convertDeltaPositionToTime (hw.framesDelta m nanoTime)

/-- By how many frames the model goes ahead of the hardware, with the marker that a timestamp
leaves. -/
def ahead (nanoTime : Int) : Int :=
  let nanosDelta := nanoTime - m.mMarkerNanoTime
  let expectedNanosDelta := hw.expectedNanosDelta m nanoTime
  if m.mState = .STATE_STARTING ∨ nanosDelta < expectedNanosDelta then 0
  else if m.mState = .STATE_RUNNING ∧
      expectedNanosDelta + toInt32 (2 * m.mBurstPeriodNanos) < nanosDelta then
    (hw.sampleRate * toInt32 (2 * m.mBurstPeriodNanos)).tdiv AAUDIO_NANOS_PER_SECOND
  else if m.mState = .STATE_RUNNING ∧
      expectedNanosDelta + m.mMaxMeasuredLatenessNanos < nanosDelta then
    (hw.sampleRate * (nanosDelta - expectedNanosDelta - kDriftNanos)).tdiv AAUDIO_NANOS_PER_SECOND
  else
    (hw.sampleRate * nanosDelta - AAUDIO_NANOS_PER_SECOND * hw.framesDelta m nanoTime) /
      AAUDIO_NANOS_PER_SECOND

/-- A timestamp that is early by less than a nanosecond, which the division of
`convertDeltaPositionToTime` hides. -/
def Hides (nanoTime : Int) : Prop :=
  m.mState ≠ .STATE_STARTING ∧ hw.expectedNanosDelta m nanoTime ≤ nanoTime - m.mMarkerNanoTime ∧
    hw.sampleRate * (nanoTime - m.mMarkerNanoTime) <
      AAUDIO_NANOS_PER_SECOND * hw.framesDelta m nanoTime

instance (nanoTime : Int) : Decidable (hw.Right m nanoTime) :=
  inferInstanceAs (Decidable (_ = _))

instance (nanoTime : Int) : Decidable (hw.Hides m nanoTime) :=
  inferInstanceAs (Decidable (_ ∧ _))

instance decidableAllSteps {P : IsochronousClockModel → Int → Prop} [∀ m t, Decidable (P m t)] :
    ∀ m times, Decidable (hw.AllSteps P m times)
  | _, [] => isTrue trivial
  | m, nanoTime :: times =>
    have : Decidable (hw.AllSteps P (hw.feed m nanoTime) times) := decidableAllSteps _ _
    inferInstanceAs (Decidable (_ ∧ _))

variable {hw m}

/-- Steps that keep an invariant, and for which it makes `P` and `Q` agree. -/
theorem AllSteps.iff {P Q : IsochronousClockModel → Int → Prop} (Fed : Int → Prop)
    (Inv : Int → IsochronousClockModel → Prop)
    (hstep : ∀ last m nanoTime, Inv last m → Fed nanoTime → last + 1000 ≤ nanoTime →
      (¬m.Ignores nanoTime → (P m nanoTime ↔ Q m nanoTime)) ∧ Inv nanoTime (hw.feed m nanoTime))
    {last : Int} {times : List Int} (hspaced : Spaced last times)
    (hfed : ∀ nanoTime ∈ times, Fed nanoTime) (hinv : Inv last m) :
    hw.AllSteps P m times ↔ hw.AllSteps Q m times := by
  induction times generalizing last m with
  | nil => exact Iff.rfl
  | cons nanoTime times ih =>
    obtain ⟨hlater, hspaced⟩ := List.isChain_cons_cons.mp hspaced
    obtain ⟨hfirst, hfed⟩ := List.forall_mem_cons.mp hfed
    obtain ⟨hiff, hinv⟩ := hstep last m nanoTime hinv hfirst hlater
    exact and_congr (forall_congr' hiff) (ih hspaced hfed hinv)

/-! ### Any rate and burst -/

/-- A model that has been started for the hardware. -/
structure Started (hw : IdealHardware) (m : IsochronousClockModel) : Prop where
  rate : m.mSampleRate = hw.sampleRate
  burst : m.mFramesPerBurst = hw.framesPerBurst
  going : m.mState ≠ .STATE_STOPPED

theorem Started.started (hw : IdealHardware) (m : IsochronousClockModel) (nanoTime : Int) :
    Started hw (hw.started m nanoTime) :=
  ⟨rfl, rfl, fun h => by cases h⟩

theorem Started.feed (h : Started hw m) (nanoTime : Int) : Started hw (hw.feed m nanoTime) := by
  obtain ⟨hrate, hburst, hgoing⟩ := h
  rw [IdealHardware.feed, processTimestamp]
  dsimp only
  split
  · exact ⟨hrate, hburst, hgoing⟩
  · split
    · exact ⟨hrate, hburst, hgoing⟩
    · exact ⟨hrate, hburst, fun h => by cases h⟩
    · split
      · exact ⟨hrate, hburst, hgoing⟩
      · exact ⟨hrate, hburst, fun h => by cases h⟩
    · rw [processRunning]
      split
      · exact ⟨hrate, hburst, hgoing⟩
      · split
        · exact ⟨hrate, hburst, hgoing⟩
        · split <;> exact ⟨hrate, hburst, hgoing⟩

theorem dvd_position (hw : IdealHardware) (nanoTime : Int) :
    hw.framesPerBurst ∣ hw.position nanoTime :=
  Int.dvd_add hw.aligned (Int.dvd_mul_right _ _)

theorem feed_eq (hw : IdealHardware) {m : IsochronousClockModel} {nanoTime : Int}
    (hheard : ¬m.Ignores nanoTime) :
    hw.feed m nanoTime = match m.mState with
      | .STATE_STOPPED => m
      | .STATE_STARTING =>
        { m.setPositionAndTime (hw.position nanoTime) nanoTime with mState := .STATE_SYNCING }
      | .STATE_SYNCING =>
        if nanoTime - m.mMarkerNanoTime < hw.expectedNanosDelta m nanoTime then
          m.setPositionAndTime (hw.position nanoTime) nanoTime
        else { m with mState := .STATE_RUNNING }
      | .STATE_RUNNING =>
        m.processRunning (hw.position nanoTime) nanoTime (nanoTime - m.mMarkerNanoTime)
          (hw.expectedNanosDelta m nanoTime) :=
  if_neg hheard

/-- A marker that stays: the quotient is a floor, from which whole frames may be taken. -/
theorem marker_stays (hw : IdealHardware) {m : IsochronousClockModel} {nanoTime : Int}
    (hheard : ¬m.Ignores nanoTime) :
    m.mMarkerFramePosition +
        (hw.sampleRate * (nanoTime - m.mMarkerNanoTime)).tdiv AAUDIO_NANOS_PER_SECOND =
      hw.position nanoTime + (hw.sampleRate * (nanoTime - m.mMarkerNanoTime) -
        AAUDIO_NANOS_PER_SECOND * hw.framesDelta m nanoTime) / AAUDIO_NANOS_PER_SECOND := by
  have hlate : ¬nanoTime - m.mMarkerNanoTime < 1000 := hheard
  have hnonneg : 0 ≤ hw.sampleRate * (nanoTime - m.mMarkerNanoTime) :=
    Int.mul_nonneg (Int.le_of_lt hw.rate_pos) (by omega)
  rw [Int.tdiv_eq_ediv_of_nonneg hnonneg, Int.sub_mul_ediv_left _ _ (by decide), framesDelta]
  omega

/-- The frames since the marker that a timestamp leaves. -/
theorem marker_feed (hw : IdealHardware) {m : IsochronousClockModel} {nanoTime : Int}
    (hgoing : m.mState ≠ .STATE_STOPPED) (hheard : ¬m.Ignores nanoTime) :
    (hw.feed m nanoTime).mMarkerFramePosition +
        (hw.sampleRate * (nanoTime - (hw.feed m nanoTime).mMarkerNanoTime)).tdiv
          AAUDIO_NANOS_PER_SECOND =
      hw.position nanoTime + hw.ahead m nanoTime := by
  have hstays := marker_stays hw hheard
  rw [feed_eq hw hheard, ahead]
  dsimp only
  cases hstate : m.mState with
  | STATE_STOPPED => exact absurd hstate hgoing
  | STATE_STARTING => simp [setPositionAndTime]
  | STATE_SYNCING =>
    by_cases hearly : nanoTime - m.mMarkerNanoTime < hw.expectedNanosDelta m nanoTime
    · simp [hearly, setPositionAndTime]
    · simpa [hearly] using hstays
  | STATE_RUNNING =>
    by_cases hearly : nanoTime - m.mMarkerNanoTime < hw.expectedNanosDelta m nanoTime
    · simp [processRunning, hearly, setPositionAndTime]
    · by_cases hvery : hw.expectedNanosDelta m nanoTime + toInt32 (2 * m.mBurstPeriodNanos) <
          nanoTime - m.mMarkerNanoTime
      · simp [processRunning, hearly, hvery, setPositionAndTime]
      · by_cases hnewly : hw.expectedNanosDelta m nanoTime + m.mMaxMeasuredLatenessNanos <
            nanoTime - m.mMarkerNanoTime
        · have hsince : ∀ delta, nanoTime - (m.mMarkerNanoTime + delta + kDriftNanos) =
              nanoTime - m.mMarkerNanoTime - delta - kDriftNanos := by omega
          simp [processRunning, hearly, hvery, hnewly, setPositionAndTime, hsince]
        · simpa [processRunning, hearly, hvery, hnewly] using hstays

theorem Started.right_iff_near (h : Started hw m) {nanoTime : Int} (hheard : ¬m.Ignores nanoTime) :
    hw.Right m nanoTime ↔
      Near hw.framesPerBurst (hw.position nanoTime) (hw.ahead m nanoTime) := by
  obtain ⟨hrate, hburst, hgoing⟩ := h.feed nanoTime
  have hmarker := marker_feed hw h.going hheard
  have hposition : (hw.feed m nanoTime).convertTimeToPosition nanoTime =
      (hw.position nanoTime + hw.ahead m nanoTime).tdiv hw.framesPerBurst * hw.framesPerBurst := by
    rw [← hmarker, convertTimeToPosition, if_neg hgoing]
    dsimp only
    rw [convertDeltaTimeToPosition, hrate, hburst]
  rw [Right, hposition]
  exact tdiv_mul_eq_iff hw.burst_pos (hw.dvd_position nanoTime)

/-! ### Bursts in the range of the model -/

variable (hw) in
def burstNanos : Int :=
  (AAUDIO_NANOS_PER_SECOND * hw.framesPerBurst).tdiv hw.sampleRate

/-- A burst is at least the drift, and two bursts fit in 32 bits. -/
structure Ordinary (hw : IdealHardware) : Prop where
  drift_le : kDriftNanos ≤ hw.burstNanos
  fits : 2 * hw.burstNanos < 2 ^ 31

theorem burstNanos_mul (hw : IdealHardware) :
    hw.sampleRate * hw.burstNanos ≤ AAUDIO_NANOS_PER_SECOND * hw.framesPerBurst ∧
      AAUDIO_NANOS_PER_SECOND * hw.framesPerBurst < hw.sampleRate * (hw.burstNanos + 1) := by
  have hnonneg : 0 ≤ AAUDIO_NANOS_PER_SECOND * hw.framesPerBurst :=
    Int.mul_nonneg (by decide) (Int.le_of_lt hw.burst_pos)
  rw [burstNanos, Int.tdiv_eq_ediv_of_nonneg hnonneg, Int.mul_comm hw.sampleRate,
    Int.mul_comm hw.sampleRate]
  exact ⟨Int.ediv_mul_le _ (Int.ne_of_gt hw.rate_pos), Int.lt_ediv_add_one_mul_self _ hw.rate_pos⟩

theorem position_mul (hw : IdealHardware) (nanoTime : Int) :
    AAUDIO_NANOS_PER_SECOND * (hw.position nanoTime - hw.startPosition) ≤
        hw.sampleRate * (nanoTime - hw.startTime) ∧
      hw.sampleRate * (nanoTime - hw.startTime) <
        AAUDIO_NANOS_PER_SECOND * (hw.position nanoTime - hw.startPosition + hw.framesPerBurst) := by
  have hpos : 0 < hw.framesPerBurst * AAUDIO_NANOS_PER_SECOND :=
    Int.mul_pos hw.burst_pos (by decide)
  have hle := Int.ediv_mul_le ((nanoTime - hw.startTime) * hw.sampleRate) (Int.ne_of_gt hpos)
  have hlt := Int.lt_ediv_add_one_mul_self ((nanoTime - hw.startTime) * hw.sampleRate) hpos
  rw [position]
  constructor <;> linarith

theorem position_mono (hw : IdealHardware) {before after : Int} (h : before ≤ after) :
    hw.position before ≤ hw.position after := by
  have hpos : 0 < hw.framesPerBurst * AAUDIO_NANOS_PER_SECOND :=
    Int.mul_pos hw.burst_pos (by decide)
  have htime : (before - hw.startTime) * hw.sampleRate ≤ (after - hw.startTime) * hw.sampleRate :=
    Int.mul_le_mul_of_nonneg_right (by omega) (Int.le_of_lt hw.rate_pos)
  have hbursts := Int.mul_le_mul_of_nonneg_left (Int.ediv_le_ediv hpos htime)
    (Int.le_of_lt hw.burst_pos)
  rw [position, position]
  omega

/-- The marker is a position that the hardware has reached, at a time when it had. -/
structure Marked (hw : IdealHardware) (last : Int) (m : IsochronousClockModel) : Prop where
  nonneg : 0 ≤ m.mMarkerFramePosition
  reached : m.mMarkerFramePosition ≤ hw.position last
  in_time : AAUDIO_NANOS_PER_SECOND * (m.mMarkerFramePosition - hw.startPosition) ≤
    hw.sampleRate * (m.mMarkerNanoTime - hw.startTime)

structure Tracking (hw : IdealHardware) (last : Int) (m : IsochronousClockModel) : Prop where
  started : Started hw m
  bounded : Bounded hw.burstNanos m
  time_le : m.mMarkerNanoTime ≤ last
  marked : m.mState ≠ .STATE_STARTING → Marked hw last m

variable {last nanoTime : Int}

theorem Marked.expectedNanosDelta (h : Marked hw last m) (hrate : m.mSampleRate = hw.sampleRate)
    (hlater : last ≤ nanoTime) :
    hw.sampleRate * hw.expectedNanosDelta m nanoTime ≤
        AAUDIO_NANOS_PER_SECOND * hw.framesDelta m nanoTime ∧
      AAUDIO_NANOS_PER_SECOND * hw.framesDelta m nanoTime <
        hw.sampleRate * (hw.expectedNanosDelta m nanoTime + 1) := by
  have hreached := h.reached
  have hmono := position_mono hw hlater
  have hnonneg : 0 ≤ AAUDIO_NANOS_PER_SECOND * hw.framesDelta m nanoTime := by
    apply Int.mul_nonneg (by decide)
    rw [framesDelta]
    omega
  rw [IdealHardware.expectedNanosDelta, convertDeltaPositionToTime, hrate,
    Int.tdiv_eq_ediv_of_nonneg hnonneg, Int.mul_comm hw.sampleRate, Int.mul_comm hw.sampleRate]
  exact ⟨Int.ediv_mul_le _ (Int.ne_of_gt hw.rate_pos), Int.lt_ediv_add_one_mul_self _ hw.rate_pos⟩

/-- No timestamp is late by more than a burst and the nanosecond of a division. -/
theorem Marked.lateness_le (h : Marked hw last m) (hrate : m.mSampleRate = hw.sampleRate)
    (hlater : last ≤ nanoTime) :
    hw.sampleRate * (nanoTime - m.mMarkerNanoTime) <
        AAUDIO_NANOS_PER_SECOND * (hw.framesDelta m nanoTime + hw.framesPerBurst) ∧
      nanoTime - m.mMarkerNanoTime ≤ hw.expectedNanosDelta m nanoTime + hw.burstNanos + 1 := by
  have hin_time := h.in_time
  obtain ⟨-, hposition⟩ := position_mul hw nanoTime
  obtain ⟨-, hexpected⟩ := h.expectedNanosDelta hrate hlater
  obtain ⟨-, hburst⟩ := burstNanos_mul hw
  have hreal : hw.sampleRate * (nanoTime - m.mMarkerNanoTime) <
      AAUDIO_NANOS_PER_SECOND * (hw.framesDelta m nanoTime + hw.framesPerBurst) := by
    rw [framesDelta]
    linarith
  refine ⟨hreal, ?_⟩
  have hmul : hw.sampleRate * (nanoTime - m.mMarkerNanoTime) <
      hw.sampleRate * (hw.expectedNanosDelta m nanoTime + hw.burstNanos + 2) := by
    linarith
  have := Int.lt_of_mul_lt_mul_left hmul (Int.le_of_lt hw.rate_pos)
  omega

/-- A quotient by the nanoseconds of a second that is of frames in a burst. -/
theorem frames_lt {n : Int} (hlt : n < AAUDIO_NANOS_PER_SECOND * hw.framesPerBurst) :
    n / AAUDIO_NANOS_PER_SECOND < hw.framesPerBurst := by
  apply Int.ediv_lt_of_lt_mul (by decide)
  rw [Int.mul_comm]
  exact hlt

/-- Frames from the hardware position on, in its burst. -/
theorem Marked.near (h : Marked hw last m) (hlater : last ≤ nanoTime) {n : Int} (hnonneg : 0 ≤ n)
    (hlt : n < hw.framesPerBurst) : Near hw.framesPerBurst (hw.position nanoTime) n := by
  have hreached := h.reached
  have hmono := position_mono hw hlater
  have hstart := h.nonneg
  exact ⟨by omega, hlt, fun _ => hnonneg, fun hnegative => by omega⟩

/-- Late by more than a burst: the drift is made up for in the burst that follows. -/
theorem Marked.near_late (h : Marked hw last m) (hrate : m.mSampleRate = hw.sampleRate)
    (ho : Ordinary hw) (hlater : last ≤ nanoTime)
    (hnewly : hw.expectedNanosDelta m nanoTime + hw.burstNanos < nanoTime - m.mMarkerNanoTime) :
    Near hw.framesPerBurst (hw.position nanoTime)
      ((hw.sampleRate * (nanoTime - m.mMarkerNanoTime - hw.expectedNanosDelta m nanoTime -
        kDriftNanos)).tdiv AAUDIO_NANOS_PER_SECOND) := by
  have hdrift := ho.drift_le
  have hdrift' : kDriftNanos = 10000 := rfl
  obtain ⟨-, hlate⟩ := h.lateness_le hrate hlater
  obtain ⟨hburst, -⟩ := burstNanos_mul hw
  have hnonneg : 0 ≤ hw.sampleRate *
      (nanoTime - m.mMarkerNanoTime - hw.expectedNanosDelta m nanoTime - kDriftNanos) :=
    Int.mul_nonneg (Int.le_of_lt hw.rate_pos) (by omega)
  have hlt : hw.sampleRate *
      (nanoTime - m.mMarkerNanoTime - hw.expectedNanosDelta m nanoTime - kDriftNanos) <
        AAUDIO_NANOS_PER_SECOND * hw.framesPerBurst :=
    Int.lt_of_lt_of_le (Int.mul_lt_mul_of_pos_left (by omega) hw.rate_pos) hburst
  rw [Int.tdiv_eq_ediv_of_nonneg hnonneg]
  exact h.near hlater (Int.ediv_nonneg hnonneg (by decide)) (frames_lt hlt)

/-- The marker stays: short of the hardware exactly when the time since it is. -/
theorem Marked.near_stays_iff (h : Marked hw last m) (hrate : m.mSampleRate = hw.sampleRate)
    (hlater : last ≤ nanoTime) (hsince : 0 ≤ nanoTime - m.mMarkerNanoTime) :
    Near hw.framesPerBurst (hw.position nanoTime) ((hw.sampleRate * (nanoTime - m.mMarkerNanoTime) -
        AAUDIO_NANOS_PER_SECOND * hw.framesDelta m nanoTime) / AAUDIO_NANOS_PER_SECOND) ↔
      AAUDIO_NANOS_PER_SECOND * hw.framesDelta m nanoTime ≤
        hw.sampleRate * (nanoTime - m.mMarkerNanoTime) := by
  obtain ⟨hreal, -⟩ := h.lateness_le hrate hlater
  have hsecond : (0 : Int) < AAUDIO_NANOS_PER_SECOND := by decide
  constructor
  · rintro ⟨-, -, hshort, -⟩
    by_contra hhidden
    -- frames have passed, so the position is not that of the start
    have hframesDelta : 0 < hw.framesDelta m nanoTime := by
      have hnonneg := Int.mul_nonneg (Int.le_of_lt hw.rate_pos) hsince
      have hframes : 0 < AAUDIO_NANOS_PER_SECOND * hw.framesDelta m nanoTime := by omega
      exact (mul_pos_iff_of_pos_left hsecond).mp hframes
    have hpositive : 0 < hw.position nanoTime := by
      have hstart := h.nonneg
      rw [framesDelta] at hframesDelta
      omega
    have hquotient := hshort hpositive
    rw [Int.ediv_nonneg_iff_of_pos hsecond] at hquotient
    omega
  · intro hexact
    apply h.near hlater
    · exact Int.ediv_nonneg (by omega) (Int.le_of_lt hsecond)
    · exact frames_lt (by linarith)

/-- Short of the hardware only where a timestamp is early by less than a nanosecond. -/
theorem Tracking.near_iff (h : Tracking hw last m) (ho : Ordinary hw)
    (hlater : last + 1000 ≤ nanoTime) :
    Near hw.framesPerBurst (hw.position nanoTime) (hw.ahead m nanoTime) ↔ ¬hw.Hides m nanoTime := by
  rw [ahead, Hides]
  by_cases hearly : m.mState = .STATE_STARTING ∨
      nanoTime - m.mMarkerNanoTime < hw.expectedNanosDelta m nanoTime
  · rw [if_pos hearly]
    refine iff_of_true (near_zero hw.burst_pos) ?_
    rintro ⟨hstarted, hle, -⟩
    rcases hearly with hstarting | hearly
    · exact hstarted hstarting
    · omega
  · rw [if_neg hearly]
    rw [not_or] at hearly
    obtain ⟨hstarted, hearly⟩ := hearly
    have hmarked := h.marked hstarted
    have hlast : last ≤ nanoTime := by omega
    obtain ⟨-, hlate⟩ := hmarked.lateness_le h.started.rate hlast
    have hdrift := ho.drift_le
    have hdrift' : kDriftNanos = 10000 := rfl
    have hge := h.bounded.lateness_ge
    have htwo : toInt32 (2 * m.mBurstPeriodNanos) = 2 * hw.burstNanos := by
      rw [h.bounded.period]
      have hfits := ho.fits
      exact toInt32_of_fits (by omega)
    rw [htwo, if_neg (by omega)]
    split
    · next hnewly =>
      refine iff_of_true (hmarked.near_late h.started.rate ho hlast (by omega)) ?_
      rintro ⟨-, -, hhidden⟩
      obtain ⟨-, hexpected⟩ := hmarked.expectedNanosDelta h.started.rate hlast
      have hexact : hw.sampleRate * (hw.expectedNanosDelta m nanoTime + 1) ≤
          hw.sampleRate * (nanoTime - m.mMarkerNanoTime) :=
        Int.mul_le_mul_of_nonneg_left (by omega) (Int.le_of_lt hw.rate_pos)
      omega
    · have htime := h.time_le
      rw [hmarked.near_stays_iff h.started.rate hlast (by omega)]
      constructor
      · rintro hexact ⟨-, -, hhidden⟩
        omega
      · intro hhidden
        by_contra hless
        exact hhidden ⟨hstarted, by omega, by omega⟩

/-- The marker at a timestamp. -/
theorem Marked.timestamp (hfed : 0 ≤ hw.position nanoTime)
    (hposition : m.mMarkerFramePosition = hw.position nanoTime)
    (htime : m.mMarkerNanoTime = nanoTime) : Marked hw nanoTime m := by
  refine ⟨?_, ?_, ?_⟩
  · rw [hposition]
    exact hfed
  · rw [hposition]
  · rw [hposition, htime]
    exact (position_mul hw nanoTime).1

theorem Marked.later (h : Marked hw last m) (hlater : last ≤ nanoTime) : Marked hw nanoTime m :=
  ⟨h.nonneg, Int.le_trans h.reached (position_mono hw hlater), h.in_time⟩

theorem Tracking.feed (h : Tracking hw last m) (ho : Ordinary hw) (hfed : 0 ≤ hw.position nanoTime)
    (hlater : last + 1000 ≤ nanoTime) : Tracking hw nanoTime (hw.feed m nanoTime) := by
  have hdrift := ho.drift_le
  have hdrift' : kDriftNanos = 10000 := rfl
  have htime := h.time_le
  have hlast : last ≤ nanoTime := by omega
  have hheard : ¬m.Ignores nanoTime := by
    rw [Ignores]
    omega
  have hbounded := h.bounded.processTimestamp ho.drift_le ho.fits (hw.position nanoTime) nanoTime
  suffices hmark : (hw.feed m nanoTime).mMarkerNanoTime ≤ nanoTime ∧
      Marked hw nanoTime (hw.feed m nanoTime) from
    ⟨h.started.feed nanoTime, hbounded, hmark.1, fun _ => hmark.2⟩
  rw [feed_eq hw hheard]
  cases hstate : m.mState with
  | STATE_STOPPED => exact absurd hstate h.started.going
  | STATE_STARTING => exact ⟨Int.le_refl _, .timestamp hfed rfl rfl⟩
  | STATE_SYNCING =>
    have hmarked := (h.marked (by simp [hstate])).later hlast
    dsimp only
    split
    · exact ⟨Int.le_refl _, .timestamp hfed rfl rfl⟩
    · exact ⟨by show m.mMarkerNanoTime ≤ nanoTime; omega, hmarked.1, hmarked.2, hmarked.3⟩
  | STATE_RUNNING =>
    have hmarked := h.marked (by simp [hstate])
    obtain ⟨-, hlate⟩ := hmarked.lateness_le h.started.rate hlast
    obtain ⟨-, hexpected⟩ := hmarked.expectedNanosDelta h.started.rate hlast
    have hge := h.bounded.lateness_ge
    have htwo : toInt32 (2 * m.mBurstPeriodNanos) = 2 * hw.burstNanos := by
      rw [h.bounded.period]
      have hfits := ho.fits
      exact toInt32_of_fits (by omega)
    dsimp only
    rw [processRunning, htwo]
    split
    · exact ⟨Int.le_refl _, .timestamp hfed rfl rfl⟩
    · rw [if_neg (by omega)]
      split
      · -- the drift is more than what the division has dropped
        refine ⟨?_, hfed, Int.le_refl _, ?_⟩
        · show m.mMarkerNanoTime + hw.expectedNanosDelta m nanoTime + kDriftNanos ≤ nanoTime
          omega
        · show AAUDIO_NANOS_PER_SECOND * (hw.position nanoTime - hw.startPosition) ≤ hw.sampleRate *
            (m.mMarkerNanoTime + hw.expectedNanosDelta m nanoTime + kDriftNanos - hw.startTime)
          have hin_time := hmarked.in_time
          have hcovers : hw.sampleRate * 1 ≤ hw.sampleRate * kDriftNanos :=
            Int.mul_le_mul_of_nonneg_left (by decide) (Int.le_of_lt hw.rate_pos)
          rw [framesDelta] at hexpected
          linarith
      · exact ⟨by omega, hmarked.later hlast⟩

theorem Tracking.start (ho : Ordinary hw) (m : IsochronousClockModel) (nanoTime : Int) :
    Tracking hw nanoTime (hw.started m nanoTime) := by
  have hdrift := ho.drift_le
  have hdrift' : kDriftNanos = 10000 := rfl
  have hfits := ho.fits
  have hperiod : (hw.started m nanoTime).mBurstPeriodNanos = hw.burstNanos :=
    toInt32_of_fits (x := hw.burstNanos) (by omega)
  have hlateness : (hw.started m nanoTime).mMaxMeasuredLatenessNanos = hw.burstNanos := hperiod
  exact ⟨.started hw m nanoTime, ⟨hperiod, by omega, by omega⟩, Int.le_refl _, fun h => absurd rfl h⟩

/-! ### Runs -/

/-- The model tracks the hardware exactly when the frames by which it goes ahead stay in the burst.
At positions of zero or more and bursts of the usual lengths, this is when no timestamp hides that it
is early by less than a nanosecond. -/
theorem tracks_iff (hw : IdealHardware) (m : IsochronousClockModel) (start : Int) (times : List Int)
    (hspaced : Spaced start times) :
    (hw.Tracks (hw.started m start) times ↔
      hw.AllSteps (fun m nanoTime => Near hw.framesPerBurst (hw.position nanoTime)
        (hw.ahead m nanoTime)) (hw.started m start) times) ∧
    (Ordinary hw → (∀ nanoTime ∈ times, 0 ≤ hw.position nanoTime) →
      (hw.Tracks (hw.started m start) times ↔
        hw.AllSteps (fun m nanoTime => ¬hw.Hides m nanoTime) (hw.started m start) times)) := by
  constructor
  · apply AllSteps.iff (fun _ => True) (fun _ m => Started hw m) ?_ hspaced (fun _ _ => trivial)
      (Started.started hw m start)
    intro last m nanoTime hstarted _ _
    exact ⟨hstarted.right_iff_near, hstarted.feed nanoTime⟩
  · intro ho hnonneg
    apply AllSteps.iff (fun nanoTime => 0 ≤ hw.position nanoTime) (Tracking hw) ?_ hspaced hnonneg
      (Tracking.start ho m start)
    intro last m nanoTime htracking hfed hlater
    exact ⟨fun hheard => (htracking.started.right_iff_near hheard).trans
      (htracking.near_iff ho hlater), htracking.feed ho hfed hlater⟩

/-- Bursts of one millisecond. -/
def milliseconds : IdealHardware where
  sampleRate := 48000
  framesPerBurst := 48
  startPosition := 0
  startTime := 0
  rate_pos := by decide
  burst_pos := by decide
  aligned := Int.dvd_zero _

theorem tracks_milliseconds :
    milliseconds.Tracks (milliseconds.started millisecond 0) [1500, 1000700, 1300000, 4000300] := by
  obtain ⟨-, hordinary⟩ := tracks_iff milliseconds millisecond 0 [1500, 1000700, 1300000, 4000300]
    (.cons_cons (by decide) (.cons_cons (by decide) (.cons_cons (by decide)
      (.cons_cons (by decide) (.singleton _)))))
  exact (hordinary ⟨by decide, by decide⟩ (by decide)).mpr (by decide)

/-- Bursts of 64 frames at 44100 Hz take 1451247 nanoseconds and a sixth. -/
def fractions : IdealHardware where
  sampleRate := 44100
  framesPerBurst := 64
  startPosition := 0
  startTime := 0
  rate_pos := by decide
  burst_pos := by decide
  aligned := Int.dvd_zero _

/-- The second burst comes 1451247 nanoseconds after the first one was seen: the model takes it for
on time and is a burst short. -/
theorem fraction_not_tracked :
    Spaced 0 [1451248, 2902495] ∧
      ¬fractions.Tracks (fractions.started millisecond 0) [1451248, 2902495] := by
  refine ⟨.cons_cons (by decide) (.cons_cons (by decide) (.singleton _)), ?_⟩
  rintro ⟨-, hsecond, -⟩
  exact absurd (hsecond (by decide)) (by decide)

end IdealHardware

end MediaFramework.AAudio
