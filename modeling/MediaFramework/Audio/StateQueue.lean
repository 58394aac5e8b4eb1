import MediaFramework.Lib.Machine
import Mathlib.Algebra.GroupWithZero.Nat
import Mathlib.Logic.Function.Basic
import Mathlib.Data.List.Basic

/-!
# State queue, step by step

`StateQueue` (`services/audioflinger`): one observer and one mutator that take turns in any order. A
step is a load or a store of `mNext` or `mAck` or the copy of a slot, with the work on variables of
one side that follows it; that `poll` returns is a step of its own.
-/

namespace MediaFramework.Audio.StateQueue

variable {T : Type*}

inductive block_t
  | BLOCK_NEVER
  | BLOCK_UNTIL_PUSHED
  | BLOCK_UNTIL_ACKED
  deriving DecidableEq

abbrev kN : Nat := 4

instance : NeZero kN := ⟨by decide⟩

abbrev Slot := Fin kN

/-- Where the observer is in `poll`. -/
inductive Polling
  | idle
  | acking (next : Option Slot)
  | returning (next : Option Slot)
  deriving DecidableEq

/-- Where the mutator is in `push`. -/
inductive Pushing
  | idle
  | waiting (block : block_t)
  | publishing (block : block_t)
  | copying (block : block_t)
  | awaiting
  deriving DecidableEq

/-- The queue, and what the last `push` has returned. -/
structure State (T : Type*) where
  mStates : Slot → T
  mNext : Option Slot := none
  mAck : Option Slot := none
  mCurrent : Option Slot := none
  mMutating : Slot := 0
  mExpecting : Option Slot := none
  mInMutation : Bool := false
  mIsDirty : Bool := false
  mIsInitialized : Bool := false
  polling : Polling := .idle
  pushing : Pushing := .idle
  result : Option (block_t × Bool) := none

inductive Action (T : Type*)
  | poll
  | observer
  | begin
  | modify (write : T → T)
  | finish (didModify : Bool)
  | push (block : block_t)
  | mutator

namespace State

variable (s : State T)

def poll : State T :=
  let next := s.mNext
  if next ≠ s.mCurrent then { s with polling := .acking next } else s

def ack (next : Option Slot) : State T := { s with mAck := next, polling := .returning next }

/-- The return of `poll` with a slot other than before. -/
def pollReturns (next : Option Slot) : State T := { s with mCurrent := next, polling := .idle }

def begin : State T := { s with mInMutation := true }

def modify (write : T → T) : State T :=
  { s with mStates := Function.update s.mStates s.mMutating (write (s.mStates s.mMutating)) }

def finish (didModify : Bool) : State T :=
  if didModify then { s with mIsDirty := true, mIsInitialized := true, mInMutation := false }
  else { s with mInMutation := false }

def pushReturns (block : block_t) (value : Bool) : State T :=
  { s with pushing := .idle, result := some (block, value) }

/-- The end of `push`, which may wait for an acknowledgement. -/
def pushEnds (block : block_t) : State T :=
  if block = .BLOCK_UNTIL_ACKED ∧ s.mExpecting ≠ none then { s with pushing := .awaiting }
  else s.pushReturns block true

def push (block : block_t) : State T :=
  let s := { s with result := none }
  if s.mIsDirty then
    if s.mExpecting ≠ none then { s with pushing := .waiting block }
    else { s with pushing := .publishing block }
  else s.pushEnds block

/-- A turn of the loop that waits for the prior push to be acknowledged. -/
def wait (block : block_t) : State T :=
  if s.mAck = s.mExpecting then { s with pushing := .publishing block }
  else if block = .BLOCK_NEVER then s.pushReturns block false
  else s

def publish (block : block_t) : State T :=
  { s with
    mNext := some s.mMutating
    mExpecting := some s.mMutating
    mMutating := if h : s.mMutating.val + 1 < kN then ⟨s.mMutating.val + 1, h⟩ else 0
    pushing := .copying block }

def copy (block : block_t) : State T :=
  let s := { s with
    mStates := match s.mExpecting with
      | some expecting => Function.update s.mStates s.mMutating (s.mStates expecting)
      | none => s.mStates
    mIsDirty := false }
  s.pushEnds block

/-- A turn of the loop that waits for this push or a prior push to be acknowledged. -/
def await : State T :=
  if s.mAck = s.mExpecting then { s with mExpecting := none }.pushReturns .BLOCK_UNTIL_ACKED true
  else s

end State

/-- A failed assertion and a turn that is not due have no next state. -/
def step (s : State T) : Action T → Option (State T)
  | .poll => if s.polling = .idle then some s.poll else none
  | .observer =>
    match s.polling with
    | .idle => none
    | .acking next => some (s.ack next)
    | .returning next => some (s.pollReturns next)
  | .begin => if s.pushing = .idle ∧ ¬s.mInMutation then some s.begin else none
  | .modify write => if s.mInMutation then some (s.modify write) else none
  | .finish didModify =>
    if s.mInMutation ∧ (s.mIsInitialized ∨ didModify) then some (s.finish didModify) else none
  | .push block => if s.pushing = .idle ∧ ¬s.mInMutation then some (s.push block) else none
  | .mutator =>
    match s.pushing with
    | .idle => none
    | .waiting block => some (s.wait block)
    | .publishing block => some (s.publish block)
    | .copying block => some (s.copy block)
    | .awaiting => some s.await

/-- The queue with any contents of its slots. -/
def queue (mStates : Slot → T) : Machine (State T) (Action T) where
  init := { mStates }
  step := step

/-- What has happened: the state of the mutator with its modifications one after another, the states
that were pushed, and the contents of the slots that polls have returned, where other than before. -/
structure History (T : Type*) where
  working : T
  pushed : List T := []
  seen : List T := []

def History.record (s : State T) (h : History T) : Action T → History T
  | .modify write => { h with working := write h.working }
  | .mutator =>
    match s.pushing with
    | .publishing _ => { h with pushed := h.pushed ++ [h.working] }
    | _ => h
  | .observer =>
    match s.polling with
    | .returning (some next) => { h with seen := h.seen ++ [s.mStates next] }
    | _ => h
  | _ => h

/-- The queue with its history. -/
def recorded (mStates : Slot → T) : Machine (State T × History T) (Action T) :=
  (queue mStates).observe { working := mStates 0 } History.record

/-- The observer has polled the state that was pushed last. -/
def HasPolled (s : State T) (h : History T) : Prop :=
  match s.polling with
  | .returning next => next = s.mNext ∧ h.pushed.length = h.seen.length + 1
  | _ => h.pushed.length = h.seen.length

end MediaFramework.Audio.StateQueue
