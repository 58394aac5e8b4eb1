import MediaFramework.Audio.TimedWaits
import Mathlib.Algebra.BigOperators.Group.List.Basic
import Mathlib.Algebra.Order.Ring.Int

/-!
# What the client's waits add up to

The limit of a futex wait against the time the caller still asks for, and the waits of a whole
call against the time it asked for.
-/

namespace MediaFramework.Audio

namespace Timespec

/-- The time in nanoseconds. -/
def toNs (t : Timespec) : Int := t.tv_sec * NSEC_PER_SEC + t.tv_nsec

def Normalised (t : Timespec) : Prop := 0 ≤ t.tv_nsec ∧ t.tv_nsec < NSEC_PER_SEC

/-- A request between zero and infinity. -/
structure Finite (t : Timespec) : Prop where
  normalised : t.Normalised
  pos : 0 < t.toNs
  lt : t.tv_sec < INT_MAX

instance (t : Timespec) : Decidable t.Normalised := inferInstanceAs (Decidable (_ ∧ _))

end Timespec

open Timespec

variable {requested total r : Timespec}

/-! ### One wait -/

theorem timeoutOf_finite (h : requested.Finite) : timeoutOf (some requested) = .TIMEOUT_FINITE := by
  have hpos := h.pos
  have hlt := h.lt
  have hzero : ¬(requested.tv_sec = 0 ∧ requested.tv_nsec = 0) := by
    rintro ⟨hsec, hnsec⟩
    rw [toNs, hsec, hnsec] at hpos
    exact absurd hpos (by decide)
  simp only [timeoutOf, if_neg hzero, if_neg hlt.ne]

theorem elapsed_iff (hreq : requested.Normalised) (htotal : total.Normalised) :
    Elapsed requested total ↔ requested.toNs ≤ total.toNs := by
  obtain ⟨h₁, h₂⟩ := hreq
  obtain ⟨h₃, h₄⟩ := htotal
  simp only [Elapsed, toNs, NSEC_PER_SEC] at *
  omega

/-- Nothing is borrowed from the seconds and the limit is not just above `MAX_SEC`; or the
remaining time is above the limit by as much as a borrow can hide. -/
def ExactLimit (requested total : Timespec) : Prop :=
  total.tv_nsec ≤ requested.tv_nsec ∧
      ¬(requested.tv_sec - total.tv_sec = MAX_SEC ∧ total.tv_nsec < requested.tv_nsec) ∨
    requested.tv_nsec < total.tv_nsec ∧ MAX_SEC < requested.tv_sec - total.tv_sec

/-- `r` is the time left, or `MAX_SEC` if that is less. -/
def IsTimeLeft (requested total r : Timespec) : Prop :=
  r.Normalised ∧ r.toNs = min (requested.toNs - total.toNs) (MAX_SEC * NSEC_PER_SEC)

theorem remaining_eq (requested total : Timespec) :
    remaining requested total =
      if requested.tv_nsec < total.tv_nsec then
        if MAX_SEC ≤ requested.tv_sec - total.tv_sec then ⟨MAX_SEC, 0⟩
        else ⟨requested.tv_sec - total.tv_sec + 1,
          requested.tv_nsec - total.tv_nsec + NSEC_PER_SEC⟩
      else if MAX_SEC < requested.tv_sec - total.tv_sec then ⟨MAX_SEC, 0⟩
      else ⟨requested.tv_sec - total.tv_sec, requested.tv_nsec - total.tv_nsec⟩ := by
  have hmax : 0 < MAX_SEC := by decide
  have hborrow : requested.tv_nsec - total.tv_nsec < 0 ↔ requested.tv_nsec < total.tv_nsec := by
    omega
  simp only [remaining, hmax, true_and, hborrow]
  split
  · simp only [Int.lt_add_one_iff]
  · rfl

theorem remaining_isTimeLeft_iff (hreq : requested.Normalised) (htotal : total.Normalised)
    (hlt : total.toNs < requested.toNs) :
    IsTimeLeft requested total (remaining requested total) ↔ ExactLimit requested total := by
  have hmax : MAX_SEC = 5 := rfl
  rw [remaining_eq]
  simp only [IsTimeLeft, ExactLimit, Normalised, toNs, NSEC_PER_SEC] at hreq htotal hlt ⊢
  by_cases hborrow : requested.tv_nsec < total.tv_nsec
  · rw [if_pos hborrow]
    -- the borrow adds a second where it should take one away
    by_cases hcap : MAX_SEC ≤ requested.tv_sec - total.tv_sec
    · rw [if_pos hcap]
      dsimp only
      omega
    · rw [if_neg hcap]
      dsimp only
      omega
  · rw [if_neg hborrow]
    by_cases hcap : MAX_SEC < requested.tv_sec - total.tv_sec
    · rw [if_pos hcap]
      dsimp only
      omega
    · rw [if_neg hcap]
      dsimp only
      omega

theorem chooseWait_eq {timeout timeout' : Timeout} {measure : Bool}
    (h : chooseWait measure timeout requested total = .ok (timeout', some r)) :
    r = remaining requested total := by
  cases timeout with
  | TIMEOUT_ZERO => cases h
  | TIMEOUT_INFINITE => cases h
  | TIMEOUT_FINITE | TIMEOUT_CONTINUE =>
    rw [chooseWait] at h
    split at h
    · cases h
    · cases h
      rfl

/-- `r` limits a futex wait of one of the two calls, which has waited for `total` so far. -/
inductive Handed (requested total r : Timespec) : Prop
  | obtainBuffer (s : ClientProxy.ObtainLoop) (timeout : Timeout) (htotal : s.total = total)
      (h : s.wait requested = .ok (timeout, some r))
  | waitStreamEndDone (s : AudioTrackClientProxy.EndDoneLoop) (timeout : Timeout)
      (htotal : s.total = total) (h : s.wait requested = .ok (timeout, some r))

theorem handed_remaining (hreq : requested.Normalised) (htotal : total.Normalised)
    (hlt : total.toNs < requested.toNs) : Handed requested total (remaining requested total) := by
  have hnot : ¬Elapsed requested total := by
    rw [elapsed_iff hreq htotal]
    omega
  refine .waitStreamEndDone ⟨.TIMEOUT_FINITE, total⟩ .TIMEOUT_CONTINUE rfl ?_
  rw [AudioTrackClientProxy.EndDoneLoop.wait, chooseWait, if_neg (not_or.mpr ⟨nofun, hnot⟩)]

/-- Both calls hand the futex exactly the time that is left, cut to `MAX_SEC`, if and only if
the subtraction borrows nothing and needs no cut below a whole second, or the cut hides the
borrow. -/
theorem handed_timeLeft_iff (hreq : requested.Finite) (htotal : total.Normalised)
    (hlt : total.toNs < requested.toNs) :
    (∀ r, Handed requested total r → IsTimeLeft requested total r) ↔
      ExactLimit requested total := by
  rw [← remaining_isTimeLeft_iff hreq.normalised htotal hlt]
  constructor
  · exact fun hall => hall _ (handed_remaining hreq.normalised htotal hlt)
  · intro hleft r hr
    obtain rfl : r = remaining requested total := by
      cases hr with
      | obtainBuffer s timeout hs h =>
        subst hs
        exact chooseWait_eq h
      | waitStreamEndDone s timeout hs h =>
        subst hs
        exact chooseWait_eq h
    exact hleft

theorem handed_timeLeft_iff_noBorrow :
    ExactLimit ⟨2, 500000000⟩ ⟨1, 200000000⟩ ∧
      ∀ r, Handed ⟨2, 500000000⟩ ⟨1, 200000000⟩ r →
        IsTimeLeft ⟨2, 500000000⟩ ⟨1, 200000000⟩ r := by
  have hexact : ExactLimit ⟨2, 500000000⟩ ⟨1, 200000000⟩ := .inl (by decide)
  exact ⟨hexact,
    (handed_timeLeft_iff ⟨by decide, by decide, by decide⟩ (by decide) (by decide)).mpr hexact⟩

/-- Half a second of one second is left, and the futex waits for two and a half; and of five and
a half seconds all are waited for at once. -/
theorem handed_too_long :
    (Handed ⟨1, 0⟩ ⟨0, 500000000⟩ ⟨2, 500000000⟩ ∧
      ¬IsTimeLeft ⟨1, 0⟩ ⟨0, 500000000⟩ ⟨2, 500000000⟩) ∧
    Handed ⟨5, 500000000⟩ ⟨0, 0⟩ ⟨5, 500000000⟩ ∧
      ¬IsTimeLeft ⟨5, 500000000⟩ ⟨0, 0⟩ ⟨5, 500000000⟩ :=
  ⟨⟨handed_remaining (by decide) (by decide) (by decide), fun h => absurd h.2 (by decide)⟩,
    handed_remaining (by decide) (by decide) (by decide), fun h => absurd h.2 (by decide)⟩

/-! ### The total of `obtainBuffer` -/

namespace ClientProxy

/-- The clock may even go back. -/
theorem addElapsed_spec {before after : Timespec} (htotal : total.Normalised)
    (hbefore : before.Normalised) (hafter : after.Normalised) :
    (addElapsed total before after).Normalised ∧
      (addElapsed total before after).toNs = total.toNs + (after.toNs - before.toNs) := by
  simp only [Normalised, toNs, NSEC_PER_SEC] at htotal hbefore hafter ⊢
  by_cases hborrow : after.tv_nsec - before.tv_nsec < 0
  · simp only [addElapsed, if_pos hborrow, NSEC_PER_SEC]
    split
    · dsimp only
      omega
    · dsimp only
      omega
  · simp only [addElapsed, if_neg hborrow, NSEC_PER_SEC]
    split
    · dsimp only
      omega
    · dsimp only
      omega

/-- The loop has measured with readings of a clock. -/
structure Measured (s : ObtainLoop) : Prop where
  total : s.total.Normalised
  before : ∀ t ∈ s.before, t.Normalised

variable {α : Type*} {s s' : ObtainLoop} {p : ObtainPass α}

theorem Measured.obtainWait (hs : Measured s) (hbefore : p.before.Normalised)
    (hafter : p.after.Normalised) (h : obtainWait s p = .inr s') : Measured s' := by
  rw [ClientProxy.obtainWait] at h
  split at h
  · cases h
    exact hs
  have hsum : (addElapsed s.total (s.before.getD p.before) p.after).Normalised := by
    refine (addElapsed_spec hs.total ?_ hafter).1
    cases hb : s.before with
    | none => exact hbefore
    | some t => exact hs.before t hb
  have hs' : s' = if s.measure then
      { s with
        total := addElapsed s.total (s.before.getD p.before) p.after
        before := some p.after }
      else s := by
    dsimp only at h
    split at h
    · cases h
    all_goals exact (Sum.inr.inj h).symm
  rw [hs']
  split
  · exact ⟨hsum, fun t ht => Option.some.inj ht ▸ hafter⟩
  · exact hs

theorem Measured.obtainPass {g : Geometry} {frameCount : Nat} (hs : Measured s)
    (hbefore : p.before.Normalised) (hafter : p.after.Normalised)
    (h : obtainPass g frameCount requested s p = .inr s') : Measured s' := by
  rw [ClientProxy.obtainPass] at h
  split at h
  · cases h
  split at h
  · split at h
    · cases h
    · next timeout _ _ =>
      have hs' : Measured
          { s with timeout := timeout, ignoreInitialPendingInterrupt := false } :=
        ⟨hs.total, hs.before⟩
      exact hs'.obtainWait hbefore hafter h
  · cases h

/-- Whatever the waits, the accumulated time is a normalised `timespec`. -/
theorem obtainBuffer_total_normalised {g : Geometry} {frameCount : Nat}
    {requested : Option Timespec} {wantsElapsed : Bool} {passes : Nat → ObtainPass α}
    (hclock : ∀ i, (passes i).before.Normalised ∧ (passes i).after.Normalised) {k : Nat}
    (h : obtainBuffer g frameCount requested wantsElapsed passes k = .inr s) :
    s.total.Normalised := by
  have hzero : Normalised ⟨0, 0⟩ := by decide
  refine (Passes.after_invariant (I := Measured) ⟨hzero, fun t ht => ?_⟩ ?_ h).total
  · cases ht
  · intro i s s' hs hpass
    exact hs.obtainPass (hclock i).1 (hclock i).2 hpass

end ClientProxy

/-! ### `waitStreamEndDone` without an answer -/

namespace AudioTrackClientProxy

/-- No flag is set and the wait takes all its time. -/
structure EndDonePass.Quiet (p : EndDonePass) : Prop where
  flags : p.flags &&&
    (CBLK_INVALID ||| CBLK_STREAM_END_DONE ||| CBLK_DISABLED ||| CBLK_INTERRUPT) = 0
  errno : p.errno = .ETIMEDOUT

/-- The time that a pass waits if it takes all of its limit. -/
def waitedIn (requested : Timespec) (p : EndDonePass) : WaitStatus ⊕ EndDoneLoop → Int
  | .inl _ => 0
  | .inr s =>
    match s.wait requested with
    | .ok (_, some r) => if p.mFutex &&& CBLK_FUTEX_WAKE ≠ 0 then 0 else r.toNs
    | _ => 0

/-- The time waited in the first passes. -/
def waited (requested : Timespec) (passes : Nat → EndDonePass) (k : Nat) : Int :=
  ((List.range k).map fun i =>
    waitedIn requested (passes i) (waitStreamEndDone (some requested) passes i)).sum

variable {passes : Nat → EndDonePass}

theorem and_or_eq_zero_iff {a b c : BitVec 32} :
    a &&& (b ||| c) = 0 ↔ a &&& b = 0 ∧ a &&& c = 0 := by
  have hsplit : a &&& (b ||| c) = (a &&& b) ||| (a &&& c) := by
    ext i
    simp [Bool.and_or_distrib_left]
  rw [hsplit]
  exact BitVec.or_eq_zero_iff

/-- The local variables between two passes: `total` is never written. -/
def Waiting (s : EndDoneLoop) : Prop :=
  (s.timeout = .TIMEOUT_FINITE ∨ s.timeout = .TIMEOUT_CONTINUE) ∧ s.total = ⟨0, 0⟩

theorem Waiting.wait {s : EndDoneLoop} (h : Waiting s) (hreq : requested.Finite) :
    s.wait requested = .ok (.TIMEOUT_CONTINUE, some (remaining requested ⟨0, 0⟩)) := by
  obtain ⟨htimeout, htotal⟩ := h
  have hpos := hreq.pos
  have hnot : ¬Elapsed requested ⟨0, 0⟩ := by
    rw [elapsed_iff hreq.normalised (by decide)]
    exact not_le.mpr hpos
  rw [EndDoneLoop.wait, htotal]
  rcases htimeout with htimeout | htimeout <;>
    rw [htimeout, chooseWait, if_neg (not_or.mpr ⟨nofun, hnot⟩)]

theorem Waiting.endDonePass {s : EndDoneLoop} (h : Waiting s) (hreq : requested.Finite)
    {p : EndDonePass} (hp : p.Quiet) :
    ∃ s', endDonePass requested s p = .inr s' ∧ Waiting s' := by
  have hflags := hp.flags
  rw [and_or_eq_zero_iff, and_or_eq_zero_iff, and_or_eq_zero_iff] at hflags
  obtain ⟨⟨⟨hinvalid, hdone⟩, hdisabled⟩, hinterrupt⟩ := hflags
  have hend : p.flags &&& (CBLK_STREAM_END_DONE ||| CBLK_DISABLED) = 0 :=
    and_or_eq_zero_iff.mpr ⟨hdone, hdisabled⟩
  have hnext : Waiting { s with timeout := .TIMEOUT_CONTINUE } := ⟨.inr rfl, h.2⟩
  refine ⟨_, ?_, hnext⟩
  rw [AudioTrackClientProxy.endDonePass, if_neg (not_not_intro hinvalid), if_neg (not_not_intro hend),
    if_neg (not_not_intro hinterrupt), h.wait hreq]
  simp only [hp.errno, ite_self]

theorem waitStreamEndDone_waiting (hreq : requested.Finite) (hquiet : ∀ i, (passes i).Quiet)
    (k : Nat) : ∃ s, waitStreamEndDone (some requested) passes k = .inr s ∧ Waiting s :=
  Passes.after_running ⟨.inl (timeoutOf_finite hreq), rfl⟩
    (fun i _ hs => hs.endDonePass hreq (hquiet i)) k

/-- Every pass waits as long as the first one. -/
theorem waited_eq (hreq : requested.Finite) (hquiet : ∀ i, (passes i).Quiet)
    (hwait : ∀ i, (passes i).mFutex &&& CBLK_FUTEX_WAKE = 0) (k : Nat) :
    waited requested passes k = k * (remaining requested ⟨0, 0⟩).toNs := by
  have hconst : ∀ i ∈ List.range k,
      waitedIn requested (passes i) (waitStreamEndDone (some requested) passes i) =
        (remaining requested ⟨0, 0⟩).toNs := by
    intro i _
    obtain ⟨s, hs, hwaiting⟩ := waitStreamEndDone_waiting hreq hquiet i
    rw [hs, waitedIn, hwaiting.wait hreq]
    exact if_neg (not_not_intro (hwait i))
  rw [waited, List.map_congr_left hconst, List.map_const', List.length_range, List.sum_replicate,
    nsmul_eq_mul]

theorem remaining_pos (hreq : requested.Finite) : 0 < (remaining requested ⟨0, 0⟩).toNs := by
  have hmax : MAX_SEC = 5 := rfl
  have hpos := hreq.pos
  obtain ⟨hnn, -⟩ := hreq.normalised
  have hborrow : ¬requested.tv_nsec < (⟨0, 0⟩ : Timespec).tv_nsec := not_lt.mpr hnn
  rw [remaining_eq, if_neg hborrow]
  split
  · decide
  · simpa only [toNs, Int.sub_zero] using hpos

/-- With a finite timeout and a server that never answers the call goes on for ever, however
long its waits get: no pass adds to its `total`. -/
theorem waitStreamEndDone_never_returns (hreq : requested.Finite)
    (hquiet : ∀ i, (passes i).Quiet) :
    (∀ k status, waitStreamEndDone (some requested) passes k ≠ .inl status) ∧
      ((∀ i, (passes i).mFutex &&& CBLK_FUTEX_WAKE = 0) →
        ∃ k, requested.toNs ≤ waited requested passes k) := by
  constructor
  · intro k status h
    obtain ⟨s, hs, -⟩ := waitStreamEndDone_waiting hreq hquiet k
    rw [hs] at h
    cases h
  · intro hwait
    have hpos := remaining_pos hreq
    have hlarge : requested.toNs * 1 ≤ requested.toNs * (remaining requested ⟨0, 0⟩).toNs :=
      mul_le_mul_of_nonneg_left hpos hreq.pos.le
    refine ⟨requested.toNs.toNat, ?_⟩
    rw [waited_eq hreq hquiet hwait, Int.toNat_of_nonneg hreq.pos.le]
    omega

/-- A server that never answers. -/
def silence (_ : Nat) : EndDonePass := ⟨0, 0, .ETIMEDOUT⟩

theorem silence_quiet (i : Nat) : (silence i).Quiet := ⟨BitVec.zero_and, rfl⟩

theorem oneSecond_finite : Finite ⟨1, 0⟩ := ⟨by decide, by decide, by decide⟩

theorem waitStreamEndDone_never_returns_oneSecond :
    (∀ k status, waitStreamEndDone (some ⟨1, 0⟩) silence k ≠ .inl status) ∧
      ∃ k, toNs ⟨1, 0⟩ ≤ waited ⟨1, 0⟩ silence k := by
  obtain ⟨hnever, hlong⟩ := waitStreamEndDone_never_returns oneSecond_finite silence_quiet
  exact ⟨hnever, hlong fun _ => BitVec.zero_and⟩

/-- A call for one second is not over once it has waited a second, nor ever after. -/
theorem waitStreamEndDone_overdue :
    toNs ⟨1, 0⟩ ≤ waited ⟨1, 0⟩ silence 1 ∧
      ¬∃ k, waitStreamEndDone (some ⟨1, 0⟩) silence k = .inl .TIMED_OUT := by
  refine ⟨by decide, ?_⟩
  rintro ⟨k, h⟩
  obtain ⟨s, hs, -⟩ := waitStreamEndDone_waiting oneSecond_finite silence_quiet k
  rw [hs] at h
  cases h

end AudioTrackClientProxy

end MediaFramework.Audio
