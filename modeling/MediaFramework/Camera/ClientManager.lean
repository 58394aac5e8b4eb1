import MediaFramework.Lib.Machine
import Mathlib.Algebra.Ring.Int.Defs
import Mathlib.Data.Finset.Defs

/-!
# Camera client manager

`ClientManager` (`services/camera/libcameraservice/utils/ClientManager.h`), the list of
active camera clients with its eviction policy, over any type of keys. A client is a shared
pointer: `ref` stands for the address, the other fields for the descriptor behind it. The
value of a descriptor is never looked at and is left out. 32-bit scores, states, costs and
owners are only compared and added up in 64 bits, so they are integers here.
-/

namespace MediaFramework.Camera

structure ClientPriority where
  mScore : Int
  mState : Int
  mIsVendorClient : Bool := false
  deriving DecidableEq, Repr

namespace ClientPriority

def setScore (p : ClientPriority) (score : Int) : ClientPriority :=
  if p.mIsVendorClient then p else { p with mScore := score }

def setState (p : ClientPriority) (state : Int) : ClientPriority :=
  if p.mIsVendorClient then p else { p with mState := state }

/-- `operator==`. -/
def Same (p q : ClientPriority) : Prop := p.mScore = q.mScore ∧ p.mState = q.mState

instance : LT ClientPriority where
  lt p q := if p.mScore = q.mScore then p.mState < q.mState else p.mScore < q.mScore

instance : LE ClientPriority where
  le p q := ¬q < p

instance (p q : ClientPriority) : Decidable (Same p q) := inferInstanceAs (Decidable (_ ∧ _))

instance (p q : ClientPriority) : Decidable (p < q) :=
  inferInstanceAs (Decidable
    (if p.mScore = q.mScore then p.mState < q.mState else p.mScore < q.mScore))

instance (p q : ClientPriority) : Decidable (p ≤ q) := inferInstanceAs (Decidable (¬_))

end ClientPriority

structure ClientDescriptor (K : Type*) where
  ref : Nat
  mKey : K
  mCost : Int
  mConflicting : Finset K
  mPriority : ClientPriority
  mOwnerId : Int
  deriving DecidableEq

variable {K : Type*} [DecidableEq K]

namespace ClientDescriptor

def isConflicting (d : ClientDescriptor K) (key : K) : Bool := key = d.mKey ∨ key ∈ d.mConflicting

/-- A vendor client keeps the priority it was made with. -/
def setPriority (d : ClientDescriptor K) (priority : ClientPriority) : ClientDescriptor K :=
  { d with
    mPriority := (d.mPriority.setScore priority.mScore).setState priority.mState }

/-- `conflicting` in `wouldEvictLocked`, for an active client and an incoming one. -/
def Conflicting (i client : ClientDescriptor K) : Prop :=
  i.mKey = client.mKey ∨ i.isConflicting client.mKey ∨ client.isConflicting i.mKey

instance (i client : ClientDescriptor K) : Decidable (Conflicting i client) :=
  inferInstanceAs (Decidable (_ ∨ _ ∨ _))

end ClientDescriptor

open ClientDescriptor

/-- A call to the listener. -/
inductive Notification (K : Type*)
  | onClientAdded (descriptor : ClientDescriptor K)
  | onClientRemoved (descriptor : ClientDescriptor K)

/-- The listener, if there is one, is the list of the calls made to it. -/
structure ClientManager (K : Type*) where
  mMaxCost : Int
  mClients : List (ClientDescriptor K) := []
  mListener : Option (List (Notification K)) := none

def DEFAULT_MAX_COST : Int := 100

namespace ClientManager

def notify (m : ClientManager K) (n : Notification K) : ClientManager K :=
  { m with mListener := m.mListener.map (· ++ [n]) }

def getCurrentCostLocked (m : ClientManager K) : Int := (m.mClients.map (·.mCost)).sum

/-- The loop for the owner with the highest priority, the most recent one among ties. -/
def scanHighest : List (ClientDescriptor K) → ClientPriority → Int → ClientPriority × Int
  | [], highestPriority, highestPriorityOwner => (highestPriority, highestPriorityOwner)
  | i :: rest, highestPriority, highestPriorityOwner =>
    if i.mPriority ≤ highestPriority then scanHighest rest i.mPriority i.mOwnerId
    else scanHighest rest highestPriority highestPriorityOwner

def highestPriorityOwner (m : ClientManager K) (client : ClientDescriptor K) : Int :=
  let (highestPriority, owner) := scanHighest m.mClients client.mPriority client.mOwnerId
  if highestPriority.Same client.mPriority then client.mOwnerId else owner

/-- The condition under which a client goes to make room for the incoming one. -/
def OverCost (mMaxCost totalCost : Int) (highestPriorityOwner : Int) (client i : ClientDescriptor K) :
    Prop :=
  (mMaxCost < totalCost ∧ 0 < i.mCost) ∧ client.mPriority ≤ i.mPriority ∧
    ¬(highestPriorityOwner = client.mOwnerId ∧ client.mOwnerId = i.mOwnerId)

instance (mMaxCost totalCost highestPriorityOwner : Int) (client i : ClientDescriptor K) :
    Decidable (OverCost mMaxCost totalCost highestPriorityOwner client i) :=
  inferInstanceAs (Decidable (_ ∧ _ ∧ _))

/-- The loop that builds the eviction list. Returns the list with the remaining cost, or
`none` if a conflicting client has a higher priority. -/
def scanEvicted (mMaxCost highestPriorityOwner : Int) (client : ClientDescriptor K) :
    List (ClientDescriptor K) → Int → Option (List (ClientDescriptor K) × Int)
  | [], totalCost => some ([], totalCost)
  | i :: rest, totalCost =>
    if Conflicting i client ∧ i.mPriority < client.mPriority then none
    else if Conflicting i client ∨ OverCost mMaxCost totalCost highestPriorityOwner client i then
      (scanEvicted mMaxCost highestPriorityOwner client rest (totalCost - i.mCost)).map
        fun (evictList, totalCost) => (i :: evictList, totalCost)
    else scanEvicted mMaxCost highestPriorityOwner client rest totalCost

/-- `wouldEvictLocked` for a client that is not null. -/
def wouldEvictLocked (m : ClientManager K) (client : ClientDescriptor K) : List (ClientDescriptor K) :=
  let owner := m.highestPriorityOwner client
  match scanEvicted m.mMaxCost owner client m.mClients (m.getCurrentCostLocked + client.mCost) with
  | none => [client]
  | some (evictList, totalCost) =>
    if m.mMaxCost < totalCost ∧ owner ≠ client.mOwnerId then [client] else evictList

/-- A client that keeps the incoming one out. -/
def Incompatible (mMaxCost totalCost : Int) (client i : ClientDescriptor K) : Prop :=
  i.mPriority < client.mPriority ∧ (Conflicting i client ∨ mMaxCost < totalCost ∧ 0 < i.mCost)

instance (mMaxCost totalCost : Int) (client i : ClientDescriptor K) :
    Decidable (Incompatible mMaxCost totalCost client i) :=
  inferInstanceAs (Decidable (_ ∧ (_ ∨ _ ∧ _)))

/-- `wouldEvictLocked` with `returnIncompatibleClients`, for a client that is not null. Nobody
is evicted in this mode, and the total cost stays what it is at first. -/
def getIncompatibleClients (m : ClientManager K) (client : ClientDescriptor K) :
    List (ClientDescriptor K) :=
  m.mClients.filter fun i =>
    Incompatible m.mMaxCost (m.getCurrentCostLocked + client.mCost) client i

/-- `remove_if` in `addAndEvict`, where `iter` is the part of the eviction list from the
iterator on. The iterator is read for every client, also when it is at the end of the list:
`stray` are the keys that such reads give, if the process survives them. -/
def removeEvicted (stray : Nat → K) :
    List (ClientDescriptor K) → List (ClientDescriptor K) → List (ClientDescriptor K)
  | _, [] => []
  | e :: iter, i :: rest =>
    if i.mKey = e.mKey then removeEvicted stray iter rest
    else i :: removeEvicted stray (e :: iter) rest
  | [], i :: rest =>
    if i.mKey = stray 0 then removeEvicted (fun n => stray (n + 1)) [] rest
    else i :: removeEvicted stray [] rest

/-- `addAndEvict` for a client that is not null. Only the first evicted client is reported to
the listener. -/
def addAndEvict (m : ClientManager K) (stray : Nat → K) (client : ClientDescriptor K) :
    ClientManager K × List (ClientDescriptor K) :=
  let evicted := m.wouldEvictLocked client
  match evicted with
  | [] =>
    let m := m.notify (.onClientAdded client)
    ({ m with mClients := m.mClients ++ [client] }, evicted)
  | first :: _ =>
    if first.ref = client.ref then (m, evicted)
    else
      let m := (m.notify (.onClientRemoved first)).notify (.onClientAdded client)
      ({ m with mClients := removeEvicted stray evicted m.mClients ++ [client] }, evicted)

/-- Owners without an entry keep their priority. -/
def updatePriorities (m : ClientManager K) (ownerPriorityList : Int → Option ClientPriority) :
    ClientManager K :=
  { m with mClients := m.mClients.map fun i =>
      match ownerPriorityList i.mOwnerId with
      | none => i
      | some priority => i.setPriority priority }

def removeAll (m : ClientManager K) : ClientManager K :=
  { m with
    mClients := []
    mListener := m.mListener.map (· ++ m.mClients.map .onClientRemoved) }

/-- Both `remove` functions take out the clients that match, and report each of them. -/
def removeIf (m : ClientManager K) (p : ClientDescriptor K → Bool) : ClientManager K :=
  { m with
    mClients := m.mClients.filter fun i => !p i
    mListener := m.mListener.map (· ++ (m.mClients.filter p).map .onClientRemoved) }

/-- `remove(key)`. Returns the last client removed. -/
def removeKey (m : ClientManager K) (key : K) : ClientManager K × Option (ClientDescriptor K) :=
  (m.removeIf fun i => i.mKey = key, (m.mClients.filter fun i => i.mKey = key).getLast?)

/-- `remove(descriptor)`, by address. -/
def remove (m : ClientManager K) (ref : Nat) : ClientManager K := m.removeIf fun i => i.ref = ref

/-- The calls that change the list. A null client is refused. -/
inductive Call (K : Type*)
  | addAndEvict (client : Option (ClientDescriptor K)) (stray : Nat → K)
  | updatePriorities (ownerPriorityList : Int → Option ClientPriority)
  | removeKey (key : K)
  | remove (ref : Nat)
  | removeAll

def step (m : ClientManager K) : Call K → ClientManager K
  | .addAndEvict none _ => m
  | .addAndEvict (some client) stray => (m.addAndEvict stray client).1
  | .updatePriorities ownerPriorityList => m.updatePriorities ownerPriorityList
  | .removeKey key => (m.removeKey key).1
  | .remove ref => m.remove ref
  | .removeAll => m.removeAll

/-- A new manager under any calls. -/
def machine (mMaxCost : Int) (mListener : Option (List (Notification K))) :
    Machine (ClientManager K) (Call K) where
  init := { mMaxCost := mMaxCost, mListener := mListener }
  step m call := some (m.step call)

end ClientManager

end MediaFramework.Camera
