import MediaFramework.Lib.Machine
import Mathlib.Logic.Basic
import Mathlib.Data.List.OfFn
import Mathlib.Algebra.Ring.Nat

/-!
# Single element state queue

`media/libmedia/include/media/SingleStateQueue.h`, first with each call of the mutator and of
the observer atomic: an observer then never sees an odd sequence number or one that
changes under it, so the retry loop of `poll` settles on its first try.
-/

namespace MediaFramework.Audio.SingleStateQueue

variable {T : Type*}

inductive SSQStatus
  | SSQ_PENDING
  | SSQ_READ
  | SSQ_DONE
  deriving DecidableEq, Repr

structure Shared (T : Type*) where
  mAck : BitVec 32
  mSequence : BitVec 32
  mValue : T

structure Mutator where
  mSequence : BitVec 32 := 0
  deriving DecidableEq

structure Observer where
  mSequence : BitVec 32 := 0
  deriving DecidableEq

/-- Two increments of the sequence number, before and after the value is stored. -/
def push (m : Mutator) (shared : Shared T) (value : T) : Mutator × Shared T :=
  let sequence := m.mSequence + 1 + 1
  (⟨sequence⟩, { shared with mSequence := sequence, mValue := value })

/-- The status of the last push. -/
def ack (m : Mutator) (shared : Shared T) : SSQStatus :=
  let ack := shared.mAck
  if (ack - m.mSequence) &&& ~~~1 ≠ 0 then .SSQ_PENDING
  else if ack &&& 1 ≠ 0 then .SSQ_DONE
  else .SSQ_READ

/-- The value, if it has changed since the last poll. -/
def poll (o : Observer) (shared : Shared T) : Option (T × Observer × Shared T) :=
  let before := shared.mSequence
  if before = o.mSequence then none
  -- still odd after MAX_TRIES
  else if before &&& 1 ≠ 0 then none
  else some (shared.mValue, ⟨before⟩, { shared with mAck := before })

def done (shared : Shared T) : Shared T := { shared with mAck := shared.mAck + 1 }

end MediaFramework.Audio.SingleStateQueue

/-!
## Single element state queue, step by step

The mutator and the observer of `SingleStateQueue.h` take turns in any order, with one access to the
shared memory a step. A value has `n` words, which are copied one after the other.
-/

namespace MediaFramework.Audio.SingleStateSteps

open SingleStateQueue

variable {n : Nat} {W : Type*}

/-- Where the mutator is in `push`. -/
inductive Pushing (n : Nat) (W : Type*)
  | idle
  | storing (value : Fin n → W) (stored : Nat)

/-- Where the observer is in `poll` or `done`. -/
inductive Polling (W : Type*)
  | idle
  | trying (before : BitVec 32) (tries : Nat) (temp : List W)
  | changed (before : BitVec 32) (temp : List W)
  | marking (ack : BitVec 32)

structure State (n : Nat) (W : Type*) where
  shared : Shared (Fin n → W)
  mutator : Mutator := {}
  pushing : Pushing n W := .idle
  observer : Observer := {}
  polling : Polling W := .idle

inductive Action (n : Nat) (W : Type*)
  | push (value : Fin n → W)
  | poll
  | done
  | mutator
  | observer

def MAX_TRIES : Nat := 5

/-- The mutator after the store of the odd sequence number. -/
def storeStep (s : State n W) (value : Fin n → W) (stored : Nat) : State n W :=
  if h : stored < n then
    { s with
      shared.mValue := Function.update s.shared.mValue ⟨stored, h⟩ (value ⟨stored, h⟩)
      pushing := .storing value (stored + 1) }
  else
    let sequence := s.mutator.mSequence + 1 + 1
    { s with shared.mSequence := sequence, mutator := ⟨sequence⟩, pushing := .idle }

/-- The loop of `poll`. -/
def tryStep (shared : Shared (Fin n → W)) (before : BitVec 32) (tries : Nat) (temp : List W) :
    Polling W :=
  if before &&& 1 ≠ 0 then
    if tries + 1 ≥ MAX_TRIES then .idle else .trying shared.mSequence (tries + 1) []
  else if h : temp.length < n then
    .trying before tries (temp ++ [shared.mValue ⟨temp.length, h⟩])
  else
    let after := shared.mSequence
    if after = before then .changed before temp
    else if tries + 1 ≥ MAX_TRIES then .idle
    else .trying after (tries + 1) []

def step (s : State n W) : Action n W → Option (State n W)
  | .push value =>
    match s.pushing with
    | .idle =>
      some { s with shared.mSequence := s.mutator.mSequence + 1, pushing := .storing value 0 }
    | .storing _ _ => none
  | .mutator =>
    match s.pushing with
    | .idle => none
    | .storing value stored => some (storeStep s value stored)
  | .poll =>
    match s.polling with
    | .idle =>
      let before := s.shared.mSequence
      some (if before = s.observer.mSequence then s else { s with polling := .trying before 0 [] })
    | _ => none
  | .done =>
    match s.polling with
    | .idle => some { s with polling := .marking (s.shared.mAck + 1) }
    | _ => none
  | .observer =>
    match s.polling with
    | .idle => none
    | .trying before tries temp => some { s with polling := tryStep s.shared before tries temp }
    | .changed before _ =>
      some { s with shared.mAck := before, observer := ⟨before⟩, polling := .idle }
    | .marking acked => some { s with shared.mAck := acked, polling := .idle }

/-- The queue as the observer initializes it, with any contents. -/
def queue (mValue : Fin n → W) : Machine (State n W) (Action n W) where
  init := { shared := ⟨0, 0, mValue⟩ }
  step := step

/-- What has happened: the values that were pushed, what successful polls returned, each with the
number of pushes completed when the sequence number was found unchanged, and whether `done` has been
called, and has stored, since the last of them. -/
structure History (n : Nat) (W : Type*) where
  pushes : List (Fin n → W) := []
  polls : List (Nat × List W) := []
  called : Bool := true
  marked : Bool := false

namespace History

variable (h : History n W)

/-- The number of the push that was polled last. -/
def polled : Nat :=
  match h.polls.getLast? with
  | none => 0
  | some poll => poll.1

def completed (s : State n W) : Nat :=
  match s.pushing with
  | .idle => h.pushes.length
  | .storing _ _ => h.pushes.length - 1

def record (s : State n W) (h : History n W) : Action n W → History n W
  | .push value => { h with pushes := h.pushes ++ [value] }
  | .done => { h with called := true }
  | .observer =>
    match s.polling with
    | .trying before tries temp =>
      match tryStep s.shared before tries temp with
      | .changed _ temp =>
        { h with polls := h.polls ++ [(h.completed s, temp)], called := false, marked := false }
      | _ => h
    | .marking _ => { h with marked := true }
    | _ => h
  | _ => h

end History

/-- Fewer than `2 ^ 30` pushes since the one polled last, and `done` at most once after each
successful poll. -/
def Allowed : State n W × History n W → Action n W → Prop
  | (_, h), .push _ => h.pushes.length + 1 < h.polled + 2 ^ 30
  | (_, h), .done => h.called = false
  | _, _ => True

end MediaFramework.Audio.SingleStateSteps
