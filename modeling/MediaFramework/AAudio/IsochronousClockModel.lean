import MediaFramework.Lib.Word

/-!
# The clock model of AAudio

`IsochronousClockModel` (`media/libaaudio/src/client`). Numbers of 64 bits are integers, as no
calculation here leaves their range; numbers of 32 bits are cut to it.
-/

namespace MediaFramework.AAudio

open Word

def AAUDIO_NANOS_PER_SECOND : Int := 1000000000

inductive ClockModelState
  | STATE_STOPPED
  | STATE_STARTING
  | STATE_SYNCING
  | STATE_RUNNING
  deriving DecidableEq

/-- The burst period has no value before `update`. -/
structure IsochronousClockModel where
  mMarkerFramePosition : Int := 0
  mMarkerNanoTime : Int := 0
  mSampleRate : Int := 48000
  mFramesPerBurst : Int := 64
  mBurstPeriodNanos : Int
  mMaxMeasuredLatenessNanos : Int := 0
  mState : ClockModelState := .STATE_STOPPED
  deriving DecidableEq

namespace IsochronousClockModel

/-- Calibrated for clocks with an error of 50 ppm. -/
def kDriftNanos : Int := 10 * 1000

def kExtraLatenessNanos : Int := 100 * 1000

variable (m : IsochronousClockModel)

def setPositionAndTime (framePosition nanoTime : Int) : IsochronousClockModel :=
  { m with mMarkerFramePosition := framePosition, mMarkerNanoTime := nanoTime }

def convertDeltaPositionToTime (framesDelta : Int) : Int :=
  (AAUDIO_NANOS_PER_SECOND * framesDelta).tdiv m.mSampleRate

def convertDeltaTimeToPosition (nanosDelta : Int) : Int :=
  (m.mSampleRate * nanosDelta).tdiv AAUDIO_NANOS_PER_SECOND

def convertPositionToTime (framePosition : Int) : Int :=
  if m.mState = .STATE_STOPPED then m.mMarkerNanoTime
  else
    let nextBurstIndex := (framePosition + m.mFramesPerBurst - 1).tdiv m.mFramesPerBurst
    let nextBurstPosition := m.mFramesPerBurst * nextBurstIndex
    let framesDelta := nextBurstPosition - m.mMarkerFramePosition
    m.mMarkerNanoTime + m.convertDeltaPositionToTime framesDelta

def convertTimeToPosition (nanoTime : Int) : Int :=
  if m.mState = .STATE_STOPPED then m.mMarkerFramePosition
  else
    let nanosDelta := nanoTime - m.mMarkerNanoTime
    let framesDelta := m.convertDeltaTimeToPosition nanosDelta
    let nextBurstPosition := m.mMarkerFramePosition + framesDelta
    let nextBurstIndex := nextBurstPosition.tdiv m.mFramesPerBurst
    nextBurstIndex * m.mFramesPerBurst

def getLateTimeOffsetNanos : Int :=
  toInt32 (toInt32 (m.mMaxMeasuredLatenessNanos - m.mBurstPeriodNanos) + kExtraLatenessNanos)

def update : IsochronousClockModel :=
  let mBurstPeriodNanos := toInt32 (m.convertDeltaPositionToTime m.mFramesPerBurst)
  { m with mBurstPeriodNanos, mMaxMeasuredLatenessNanos := mBurstPeriodNanos }

def setSampleRate (sampleRate : Int) : IsochronousClockModel :=
  { m with mSampleRate := sampleRate }.update

def setFramesPerBurst (framesPerBurst : Int) : IsochronousClockModel :=
  { m with mFramesPerBurst := framesPerBurst }.update

def start (nanoTime : Int) : IsochronousClockModel :=
  { m with mMarkerNanoTime := nanoTime, mState := .STATE_STARTING }

def stop (nanoTime : Int) : IsochronousClockModel :=
  { m.setPositionAndTime (m.convertTimeToPosition nanoTime) nanoTime with mState := .STATE_STOPPED }

/-- The case `STATE_RUNNING` of `processTimestamp`. -/
def processRunning (framePosition nanoTime nanosDelta expectedNanosDelta : Int) :
    IsochronousClockModel :=
  if nanosDelta < expectedNanosDelta then m.setPositionAndTime framePosition nanoTime
  else if nanosDelta > expectedNanosDelta + toInt32 (2 * m.mBurstPeriodNanos) then
    m.setPositionAndTime framePosition (nanoTime - toInt32 (2 * m.mBurstPeriodNanos))
  else if nanosDelta > expectedNanosDelta + m.mMaxMeasuredLatenessNanos then
    { m with mMaxMeasuredLatenessNanos := toInt32 (nanosDelta - expectedNanosDelta) }.setPositionAndTime
      framePosition (m.mMarkerNanoTime + expectedNanosDelta + kDriftNanos)
  else m

def processTimestamp (framePosition nanoTime : Int) : IsochronousClockModel :=
  let framesDelta := framePosition - m.mMarkerFramePosition
  let nanosDelta := nanoTime - m.mMarkerNanoTime
  if nanosDelta < 1000 then m
  else
    let expectedNanosDelta := m.convertDeltaPositionToTime framesDelta
    match m.mState with
    | .STATE_STOPPED => m
    | .STATE_STARTING =>
      { m.setPositionAndTime framePosition nanoTime with mState := .STATE_SYNCING }
    | .STATE_SYNCING =>
      if nanosDelta < expectedNanosDelta then m.setPositionAndTime framePosition nanoTime
      else { m with mState := .STATE_RUNNING }
    | .STATE_RUNNING => m.processRunning framePosition nanoTime nanosDelta expectedNanosDelta

/-! ### Calls -/

inductive Call
  | start (nanoTime : Int)
  | stop (nanoTime : Int)
  | processTimestamp (framePosition nanoTime : Int)

def call : Call → IsochronousClockModel
  | .start nanoTime => m.start nanoTime
  | .stop nanoTime => m.stop nanoTime
  | .processTimestamp framePosition nanoTime => m.processTimestamp framePosition nanoTime

def run (calls : List Call) : IsochronousClockModel := calls.foldl call m

/-- A timestamp that is too close to the marker is ignored. -/
def Ignores (nanoTime : Int) : Prop := nanoTime - m.mMarkerNanoTime < 1000

instance (nanoTime : Int) : Decidable (m.Ignores nanoTime) :=
  inferInstanceAs (Decidable (nanoTime - m.mMarkerNanoTime < 1000))

/-- When the model expects a position, without regard to bursts. -/
def modelTime (framePosition : Int) : Int :=
  m.mMarkerNanoTime + m.convertDeltaPositionToTime (framePosition - m.mMarkerFramePosition)

/-! ### Bounds -/

variable {m} {b : Int}

/-- The lateness is that of one to two bursts. -/
structure Bounded (b : Int) (m : IsochronousClockModel) : Prop where
  period : m.mBurstPeriodNanos = b
  lateness_ge : b ≤ m.mMaxMeasuredLatenessNanos
  lateness_le : m.mMaxMeasuredLatenessNanos ≤ 2 * b

theorem modelTime_marker (m : IsochronousClockModel) (framePosition nanoTime : Int) :
    (m.setPositionAndTime framePosition nanoTime).modelTime framePosition = nanoTime := by
  rw [modelTime, convertDeltaPositionToTime]
  simp [setPositionAndTime]

/-- The marker that is left is within two bursts before a timestamp. -/
theorem Bounded.processRunning (h : Bounded b m) (hdrift : kDriftNanos ≤ b) (hsmall : 2 * b < 2 ^ 31)
    (framePosition nanoTime : Int) {nanosDelta expectedNanosDelta : Int}
    (hnanos : nanosDelta = nanoTime - m.mMarkerNanoTime)
    (hexpected : expectedNanosDelta =
      m.convertDeltaPositionToTime (framePosition - m.mMarkerFramePosition)) :
    Bounded b (m.processRunning framePosition nanoTime nanosDelta expectedNanosDelta) ∧
      nanoTime - 2 * b ≤
        (m.processRunning framePosition nanoTime nanosDelta expectedNanosDelta).modelTime framePosition ∧
      (m.processRunning framePosition nanoTime nanosDelta expectedNanosDelta).modelTime framePosition ≤
        nanoTime := by
  have hperiod := h.period
  have hge := h.lateness_ge
  have hle := h.lateness_le
  have hdrift' : kDriftNanos = 10000 := rfl
  have htwo : toInt32 (2 * m.mBurstPeriodNanos) = 2 * b := by
    rw [hperiod]
    exact toInt32_of_fits (by omega)
  rw [IsochronousClockModel.processRunning, htwo]
  split
  · rw [modelTime_marker]
    exact ⟨⟨hperiod, hge, hle⟩, by omega, by omega⟩
  · split
    · rw [modelTime_marker]
      exact ⟨⟨hperiod, hge, hle⟩, by omega, by omega⟩
    · split
      · -- the drift is no more than the lateness that has been found
        have hfits : toInt32 (nanosDelta - expectedNanosDelta) = nanosDelta - expectedNanosDelta :=
          toInt32_of_fits (by omega)
        rw [modelTime_marker, hfits]
        refine ⟨⟨hperiod, ?_, ?_⟩, by omega, by omega⟩
        · show b ≤ nanosDelta - expectedNanosDelta
          omega
        · show nanosDelta - expectedNanosDelta ≤ 2 * b
          omega
      · rw [modelTime, ← hexpected]
        exact ⟨h, by omega, by omega⟩

theorem Bounded.processTimestamp (h : Bounded b m) (hdrift : kDriftNanos ≤ b) (hsmall : 2 * b < 2 ^ 31)
    (framePosition nanoTime : Int) : Bounded b (m.processTimestamp framePosition nanoTime) := by
  rw [IsochronousClockModel.processTimestamp]
  dsimp only
  split
  · exact h
  · split
    · exact h
    · exact ⟨h.period, h.lateness_ge, h.lateness_le⟩
    · split
      · exact ⟨h.period, h.lateness_ge, h.lateness_le⟩
      · exact ⟨h.period, h.lateness_ge, h.lateness_le⟩
    · exact (h.processRunning hdrift hsmall framePosition nanoTime rfl rfl).1

theorem Bounded.call (h : Bounded b m) (hdrift : kDriftNanos ≤ b) (hsmall : 2 * b < 2 ^ 31)
    (c : Call) : Bounded b (m.call c) := by
  cases c with
  | start nanoTime => exact ⟨h.period, h.lateness_ge, h.lateness_le⟩
  | stop nanoTime => exact ⟨h.period, h.lateness_ge, h.lateness_le⟩
  | processTimestamp framePosition nanoTime =>
    exact h.processTimestamp hdrift hsmall framePosition nanoTime

theorem Bounded.run (h : Bounded b m) (hdrift : kDriftNanos ≤ b) (hsmall : 2 * b < 2 ^ 31)
    (calls : List Call) : Bounded b (m.run calls) := by
  induction calls generalizing m with
  | nil => exact h
  | cons c calls ih => exact ih (h.call hdrift hsmall c)

theorem Bounded.update (m : IsochronousClockModel) (hpos : 0 ≤ m.update.mBurstPeriodNanos) :
    Bounded m.update.mBurstPeriodNanos m.update := by
  refine ⟨rfl, Int.le_refl _, ?_⟩
  show m.update.mBurstPeriodNanos ≤ _
  omega

theorem Bounded.getLateTimeOffsetNanos (h : Bounded b m) (hdrift : kDriftNanos ≤ b)
    (hsmall : 2 * b < 2 ^ 31) : kExtraLatenessNanos ≤ m.getLateTimeOffsetNanos := by
  have hperiod := h.period
  have hge := h.lateness_ge
  have hle := h.lateness_le
  have hdrift' : kDriftNanos = 10000 := rfl
  have hextra : kExtraLatenessNanos = 100000 := rfl
  have hlateness : toInt32 (m.mMaxMeasuredLatenessNanos - m.mBurstPeriodNanos) =
      m.mMaxMeasuredLatenessNanos - m.mBurstPeriodNanos := toInt32_of_fits (by omega)
  rw [IsochronousClockModel.getLateTimeOffsetNanos, hlateness, toInt32_of_fits (by omega)]
  omega

/-- A timestamp that is not ignored and leaves the model running: it is not before the time of its
position, and no more than two bursts after it once the model has been running. -/
theorem Bounded.modelTime (h : Bounded b m) (hdrift : kDriftNanos ≤ b) (hsmall : 2 * b < 2 ^ 31)
    {framePosition nanoTime : Int} (hheard : ¬m.Ignores nanoTime)
    (hrunning : (m.processTimestamp framePosition nanoTime).mState = .STATE_RUNNING) :
    (m.processTimestamp framePosition nanoTime).modelTime framePosition ≤ nanoTime ∧
      (m.mState = .STATE_RUNNING →
        nanoTime - 2 * b ≤ (m.processTimestamp framePosition nanoTime).modelTime framePosition) := by
  rw [IsochronousClockModel.processTimestamp] at hrunning ⊢
  dsimp only at hrunning ⊢
  have hdelta : ¬nanoTime - m.mMarkerNanoTime < 1000 := hheard
  rw [if_neg hdelta] at hrunning ⊢
  cases hstate : m.mState with
  | STATE_STOPPED =>
    rw [hstate] at hrunning
    exact absurd (hstate.symm.trans hrunning) (by decide)
  | STATE_STARTING =>
    rw [hstate] at hrunning
    cases hrunning
  | STATE_SYNCING =>
    rw [hstate] at hrunning
    dsimp only at hrunning ⊢
    refine ⟨?_, fun hother => by cases hother⟩
    split
    · next hearly =>
      rw [if_pos hearly] at hrunning
      exact absurd (hstate.symm.trans hrunning) (by decide)
    · -- the marker stays where it is
      show m.modelTime framePosition ≤ nanoTime
      rw [IsochronousClockModel.modelTime]
      omega
  | STATE_RUNNING =>
    obtain ⟨-, hlate, hearly⟩ := h.processRunning hdrift hsmall framePosition nanoTime rfl rfl
    exact ⟨hearly, fun _ => hlate⟩

/-- A model with a burst of at least the drift and below `2 ^ 30` ns, after any calls. -/
theorem lateness_bounded (m : IsochronousClockModel)
    (hdrift : kDriftNanos ≤ m.update.mBurstPeriodNanos)
    (hsmall : 2 * m.update.mBurstPeriodNanos < 2 ^ 31) (calls : List Call) :
    m.update.mBurstPeriodNanos ≤ (m.update.run calls).mMaxMeasuredLatenessNanos ∧
      (m.update.run calls).mMaxMeasuredLatenessNanos ≤ 2 * m.update.mBurstPeriodNanos ∧
      kExtraLatenessNanos ≤ (m.update.run calls).getLateTimeOffsetNanos ∧
      ∀ framePosition nanoTime, ¬(m.update.run calls).Ignores nanoTime →
        ((m.update.run calls).processTimestamp framePosition nanoTime).mState = .STATE_RUNNING →
        ((m.update.run calls).processTimestamp framePosition nanoTime).modelTime framePosition ≤
            nanoTime ∧
          ((m.update.run calls).mState = .STATE_RUNNING →
            nanoTime - 2 * m.update.mBurstPeriodNanos ≤
              ((m.update.run calls).processTimestamp framePosition nanoTime).modelTime
                framePosition) := by
  have hdrift' : kDriftNanos = 10000 := rfl
  have hstart : Bounded m.update.mBurstPeriodNanos m.update := Bounded.update m (by omega)
  have hrun := hstart.run hdrift hsmall calls
  exact ⟨hrun.lateness_ge, hrun.lateness_le, hrun.getLateTimeOffsetNanos hdrift hsmall,
    fun _ _ hheard hrunning => hrun.modelTime hdrift hsmall hheard hrunning⟩

/-- Bursts of one millisecond. -/
def millisecond : IsochronousClockModel :=
  { mBurstPeriodNanos := 0, mSampleRate := 48000, mFramesPerBurst := 48 }

theorem lateness_bounded_millisecond :
    let m := millisecond.update.run
      [.start 0, .processTimestamp 0 1000, .processTimestamp 0 2000]
    1000000 ≤ m.mMaxMeasuredLatenessNanos ∧
      (m.processTimestamp 48 2500000).modelTime 48 ≤ 2500000 ∧
      2500000 - 2000000 ≤ (m.processTimestamp 48 2500000).modelTime 48 := by
  intro m
  obtain ⟨hge, -, -, hheard⟩ := lateness_bounded millisecond (by decide) (by decide)
    [.start 0, .processTimestamp 0 1000, .processTimestamp 0 2000]
  obtain ⟨hearly, hlate⟩ := hheard 48 2500000 (by decide) (by decide)
  exact ⟨hge, hearly, hlate (by decide)⟩

/-- The timestamp that ends the synchronization may be late by any time: here by a second. -/
theorem late_when_synchronized :
    let m := millisecond.update.run [.start 0, .processTimestamp 0 1000]
    kDriftNanos ≤ millisecond.update.mBurstPeriodNanos ∧
      2 * millisecond.update.mBurstPeriodNanos < 2 ^ 31 ∧ ¬m.Ignores 1000000000 ∧
      (m.processTimestamp 0 1000000000).mState = .STATE_RUNNING ∧
      ¬1000000000 - 2 * millisecond.update.mBurstPeriodNanos ≤
        (m.processTimestamp 0 1000000000).modelTime 0 := by
  intro m
  decide

end IsochronousClockModel

end MediaFramework.AAudio
