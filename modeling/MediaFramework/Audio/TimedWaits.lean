import MediaFramework.Audio.StreamingTrack
import MediaFramework.Lib.Folds

/-!
# Timed waits of the client

`ClientProxy::obtainBuffer` and `AudioTrackClientProxy::waitStreamEndDone`
(`media/libaudioclient/AudioTrackShared.cpp`) wait on the futex of the control block for at
most the time their caller asked for. Each is a loop whose passes look at the control block,
choose how long to wait, and wait. The fields of a `timespec` stay far from the bounds of
their types and are integers here.
-/

namespace MediaFramework.Audio

structure Timespec where
  tv_sec : Int
  tv_nsec : Int
  deriving DecidableEq, Repr

def INT_MAX : Int := 2^31 - 1
def NSEC_PER_SEC : Int := 1000000000

/-- The least request that is measured. -/
def MEASURE_NS : Int := 10000000

/-- The longest single wait. -/
def MAX_SEC : Int := 5

def CBLK_STREAM_END_DONE : BitVec 32 := 0x400

def kNonBlocking : Timespec := ⟨0, 0⟩

inductive Timeout
  | TIMEOUT_ZERO
  | TIMEOUT_INFINITE
  | TIMEOUT_FINITE
  | TIMEOUT_CONTINUE
  deriving DecidableEq, Repr

/-- What a futex wait leaves in `errno`. -/
inductive Errno
  | success
  | EWOULDBLOCK
  | EINTR
  | ETIMEDOUT
  | other (code : Nat)
  deriving DecidableEq, Repr

/-- The status of a call that may wait. `EINTR` is returned negated, `error` as it is. -/
inductive WaitStatus
  | NO_ERROR
  | WOULD_BLOCK
  | NO_INIT
  | DEAD_OBJECT
  | NOT_ENOUGH_DATA
  | TIMED_OUT
  | EINTR
  | error (code : Nat)
  deriving DecidableEq, Repr

/-! ### Choosing the wait -/

def timeoutOf (requested : Option Timespec) : Timeout :=
  match requested with
  | none => .TIMEOUT_ZERO
  | some requested =>
    if requested.tv_sec = 0 ∧ requested.tv_nsec = 0 then .TIMEOUT_ZERO
    else if requested.tv_sec = INT_MAX then .TIMEOUT_INFINITE
    else .TIMEOUT_FINITE

def remaining (requested total : Timespec) : Timespec :=
  let sec := requested.tv_sec - total.tv_sec
  let nsec := requested.tv_nsec - total.tv_nsec
  let r : Timespec := if nsec < 0 then ⟨sec + 1, nsec + NSEC_PER_SEC⟩ else ⟨sec, nsec⟩
  if 0 < MAX_SEC ∧ MAX_SEC < r.tv_sec then ⟨MAX_SEC, 0⟩ else r

/-- The requested time has been waited for. -/
def Elapsed (requested total : Timespec) : Prop :=
  requested.tv_sec < total.tv_sec ∨
    requested.tv_sec = total.tv_sec ∧ requested.tv_nsec ≤ total.tv_nsec

instance (requested total : Timespec) : Decidable (Elapsed requested total) :=
  inferInstanceAs (Decidable (_ ∨ _ ∧ _))

/-- The `switch` on the timeout: the status that ends the call, or the new timeout and the
limit for the futex wait. The first finite wait falls through, as `MAX_SEC` is not zero. -/
def chooseWait (measure : Bool) (timeout : Timeout) (requested total : Timespec) :
    Except WaitStatus (Timeout × Option Timespec) :=
  match timeout with
  | .TIMEOUT_ZERO => .error .WOULD_BLOCK
  | .TIMEOUT_INFINITE => .ok (.TIMEOUT_INFINITE, none)
  | .TIMEOUT_FINITE | .TIMEOUT_CONTINUE =>
    if measure = false ∨ Elapsed requested total then .error .TIMED_OUT
    else .ok (.TIMEOUT_CONTINUE, some (remaining requested total))

/-! ### `obtainBuffer` -/

namespace ClientProxy

/-- The local variables of the loop. -/
structure ObtainLoop where
  timeout : Timeout
  measure : Bool
  total : Timespec := ⟨0, 0⟩
  before : Option Timespec := none
  ignoreInitialPendingInterrupt : Bool := true

def ObtainLoop.wait (s : ObtainLoop) (requested : Timespec) :
    Except WaitStatus (Timeout × Option Timespec) :=
  chooseWait s.measure s.timeout requested s.total

/-- What a pass meets: the control block, the futex word when it comes to wait, how the wait
ends, and the clock before and after it. -/
structure ObtainPass (α : Type*) where
  track : Track α
  mFutex : BitVec 32
  errno : Errno
  before : Timespec
  after : Timespec

def ofStatus : Status → WaitStatus
  | .NO_ERROR => .NO_ERROR
  | .WOULD_BLOCK => .WOULD_BLOCK
  | .NO_INIT => .NO_INIT
  | .DEAD_OBJECT => .DEAD_OBJECT
  | .NOT_ENOUGH_DATA => .NOT_ENOUGH_DATA

/-- The total waiting time after a wait. -/
def addElapsed (total before after : Timespec) : Timespec :=
  let sec := total.tv_sec + (after.tv_sec - before.tv_sec)
  let deltaNs := after.tv_nsec - before.tv_nsec
  let d : Timespec := if deltaNs < 0 then ⟨sec - 1, deltaNs + NSEC_PER_SEC⟩ else ⟨sec, deltaNs⟩
  let nsec := total.tv_nsec + d.tv_nsec
  if NSEC_PER_SEC ≤ nsec then ⟨d.tv_sec + 1, nsec - NSEC_PER_SEC⟩ else ⟨d.tv_sec, nsec⟩

/-- The client has been interrupted, and not before this call. -/
def Interrupted (s : ObtainLoop) (flags : BitVec 32) : Prop :=
  flags &&& CBLK_INVALID = 0 ∧ flags &&& CBLK_DISABLED = 0 ∧
    s.ignoreInitialPendingInterrupt = false ∧ flags &&& CBLK_INTERRUPT ≠ 0

instance (s : ObtainLoop) (flags : BitVec 32) : Decidable (Interrupted s flags) :=
  inferInstanceAs (Decidable (_ ∧ _ ∧ _ ∧ _))

/-- The futex wait, which does not happen if a wake is pending. -/
def obtainWait {α : Type*} (s : ObtainLoop) (p : ObtainPass α) : WaitStatus ⊕ ObtainLoop :=
  if p.mFutex &&& CBLK_FUTEX_WAKE ≠ 0 then .inr s
  else
    let s := if s.measure then
        { s with
          total := addElapsed s.total (s.before.getD p.before) p.after
          before := some p.after }
      else s
    match p.errno with
    | .other code => .inl (.error code)
    | .success | .EWOULDBLOCK | .EINTR | .ETIMEDOUT => .inr s

/-- One pass of the loop. With nothing to obtain, `clientObtainBuffer` would block. -/
def obtainPass {α : Type*} (g : Geometry) (frameCount : Nat) (requested : Timespec)
    (s : ObtainLoop) (p : ObtainPass α) : WaitStatus ⊕ ObtainLoop :=
  if p.track.client.mIsShutdown = false ∧ Interrupted s p.track.cblk.mFlags then .inl .EINTR
  else
    match (p.track.clientObtainBuffer g frameCount).1 with
    | .WOULD_BLOCK =>
      match s.wait requested with
      | .error status => .inl status
      | .ok (timeout, _) =>
        obtainWait { s with timeout := timeout, ignoreInitialPendingInterrupt := false } p
    | status => .inl (ofStatus status)

/-- Whether the waiting time is measured: the caller wants to know, or the request is finite
and not too short. -/
def measures (requested : Option Timespec) (wantsElapsed : Bool) : Bool :=
  wantsElapsed ||
    match requested with
    | none => false
    | some requested =>
      timeoutOf (some requested) = .TIMEOUT_FINITE &&
        (0 < requested.tv_sec || MEASURE_NS ≤ requested.tv_nsec)

/-- `obtainBuffer` after so many passes. -/
def obtainBuffer {α : Type*} (g : Geometry) (frameCount : Nat) (requested : Option Timespec)
    (wantsElapsed : Bool) (passes : Nat → ObtainPass α) : Nat → WaitStatus ⊕ ObtainLoop :=
  Passes.after (obtainPass g frameCount (requested.getD kNonBlocking))
    { timeout := timeoutOf requested, measure := measures requested wantsElapsed } passes

end ClientProxy

/-! ### `waitStreamEndDone` -/

namespace AudioTrackClientProxy

/-- The local variables of the loop. -/
structure EndDoneLoop where
  timeout : Timeout
  total : Timespec := ⟨0, 0⟩

def EndDoneLoop.wait (s : EndDoneLoop) (requested : Timespec) :
    Except WaitStatus (Timeout × Option Timespec) :=
  chooseWait true s.timeout requested s.total

/-- What a pass meets: the flags, the futex word when it comes to wait, how the wait ends. -/
structure EndDonePass where
  flags : BitVec 32
  mFutex : BitVec 32
  errno : Errno

/-- One pass of the loop. -/
def endDonePass (requested : Timespec) (s : EndDoneLoop) (p : EndDonePass) :
    WaitStatus ⊕ EndDoneLoop :=
  if p.flags &&& CBLK_INVALID ≠ 0 then .inl .DEAD_OBJECT
  -- a track is not supposed to underrun at this stage but consider it done
  else if p.flags &&& (CBLK_STREAM_END_DONE ||| CBLK_DISABLED) ≠ 0 then .inl .NO_ERROR
  else if p.flags &&& CBLK_INTERRUPT ≠ 0 then .inl .EINTR
  else
    match s.wait requested with
    | .error status => .inl status
    | .ok (timeout, _) =>
      if p.mFutex &&& CBLK_FUTEX_WAKE ≠ 0 then .inr { s with timeout := timeout }
      else
        match p.errno with
        | .other code => .inl (.error code)
        | .success | .EWOULDBLOCK | .EINTR | .ETIMEDOUT => .inr { s with timeout := timeout }

/-- `waitStreamEndDone` after so many passes. -/
def waitStreamEndDone (requested : Option Timespec) (passes : Nat → EndDonePass) :
    Nat → WaitStatus ⊕ EndDoneLoop :=
  Passes.after (endDonePass (requested.getD kNonBlocking)) { timeout := timeoutOf requested } passes

end AudioTrackClientProxy

end MediaFramework.Audio
