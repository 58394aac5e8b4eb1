import MediaFramework.Lib.KeyedVector
import Mathlib.Algebra.Order.Ring.Int

/-!
# The resource manager service

`ResourceManagerService` (`services/mediaresourcemanager`): the clients of each process with their
resources, and the choice of clients that are to give resources back. `ProcessInfo` is what the
service asks about processes.
-/

namespace MediaFramework.ResourceManager

inductive ResourceType
  | kUnspecified
  | kSecureCodec
  | kNonSecureCodec
  | kGraphicMemory
  | kCpuBoost
  deriving DecidableEq

structure MediaResource where
  mType : ResourceType
  mValue : Nat := 1
  deriving DecidableEq

structure ResourceInfo (κ : Type*) where
  clientId : Int
  client : κ
  resources : List MediaResource := []
  cpuBoost : Bool := false
  deriving DecidableEq

/-- A priority that is not known is `none`. -/
structure ProcessInfo where
  isValidPid : Int → Bool
  getPriority : Int → Option Int

/-- `requests` are the calls of `requestCpusetBoost`. -/
structure Service (κ : Type*) where
  mMap : KeyedVector Int (List (ResourceInfo κ)) := .empty
  mSupportsMultipleSecureCodecs : Bool := true
  mSupportsSecureWithNonSecureCodec : Bool := true
  mCpuBoostCount : Int := 0
  requests : List Bool := []

variable {κ : Type*} [DecidableEq κ]

def hasResourceType (type : ResourceType) (resources : List MediaResource) : Bool :=
  resources.any (·.mType = type)

/-- The info of the client, which is new if there is none. -/
def getResourceInfoForEdit (clientId : Int) (client : κ) (edit : ResourceInfo κ → ResourceInfo κ) :
    List (ResourceInfo κ) → List (ResourceInfo κ)
  | [] => [edit { clientId, client }]
  | info :: infos =>
    if info.clientId = clientId then edit info :: infos
    else info :: getResourceInfoForEdit clientId client edit infos

/-- The info that `getResourceInfoForEdit` finds has no boost yet. -/
def lacksBoost (clientId : Int) (infos : List (ResourceInfo κ)) : Bool :=
  ((infos.find? (·.clientId = clientId)).map (!·.cpuBoost)).getD true

namespace Service

variable (s : Service κ) (p : ProcessInfo)

/-- The boost is requested for every new client that has it. -/
def addResource (pid clientId : Int) (client : κ) (resources : List MediaResource) : Service κ :=
  if ¬p.isValidPid pid then s
  else
    let infos := (s.mMap.find? pid).getD []
    let boosts := hasResourceType .kCpuBoost resources
    let infos' := getResourceInfoForEdit clientId client (fun info =>
      { info with
        resources := info.resources ++ resources
        cpuBoost := info.cpuBoost || boosts }) infos
    let s := { s with mMap := s.mMap.set pid infos' }
    if boosts && lacksBoost clientId infos then
      { s with
        mCpuBoostCount := s.mCpuBoostCount + 1
        requests := s.requests ++ [true] }
    else s

/-- The last boost is given back. -/
def releaseBoost : Service κ :=
  if s.mCpuBoostCount > 0 then
    { s with
      mCpuBoostCount := s.mCpuBoostCount - 1
      requests := if s.mCpuBoostCount - 1 = 0 then s.requests ++ [false] else s.requests }
  else s

/-- `checkValid` is false for a client that has died. -/
def removeResource (pid clientId : Int) (checkValid : Bool) : Service κ :=
  if checkValid && !p.isValidPid pid then s
  else
    match s.mMap.find? pid with
    | none => s
    | some infos =>
      match infos.find? (·.clientId = clientId) with
      | none => s
      | some info =>
        let s := if info.cpuBoost then s.releaseBoost else s
        { s with mMap := s.mMap.set pid (infos.eraseP (·.clientId = clientId)) }

/-- The end of `reclaimResource` for a client that does not agree. -/
def removeFailedClient (failedClient : κ) : Service κ :=
  { s with
    mMap := s.mMap.modifyFirst (·.any (·.client = failedClient))
      (·.filter (·.client ≠ failedClient)) }

/-! ### Clients to reclaim from -/

def isCallingPriorityHigher_l (callingPid pid : Int) : Bool :=
  match p.getPriority callingPid, p.getPriority pid with
  | some callingPidPriority, some priority => callingPidPriority < priority
  | _, _ => false

/-- The loops of `getAllClients_l`. -/
def allClients (callingPid : Int) (type : ResourceType) :
    List (Int × List (ResourceInfo κ)) → Option (List κ)
  | [] => some []
  | (pid, infos) :: map =>
    let holders := infos.filter (hasResourceType type ·.resources)
    if holders ≠ [] ∧ ¬isCallingPriorityHigher_l p callingPid pid then none
    else (allClients callingPid type map).map (holders.map (·.client) ++ ·)

def getAllClients_l (callingPid : Int) (type : ResourceType) (clients : List κ) :
    Option (List κ) :=
  (allClients p callingPid type s.mMap.entries).map (clients ++ ·)

/-- The loop of `getLowestPriorityPid_l`, with `pid` and `priority` so far. -/
def lowestPriorityPid (type : ResourceType) :
    List (Int × List (ResourceInfo κ)) → Int → Int → Int × Int
  | [], pid, priority => (pid, priority)
  | (tempPid, infos) :: map, pid, priority =>
    if ¬infos.any (hasResourceType type ·.resources) then lowestPriorityPid type map pid priority
    else
      match p.getPriority tempPid with
      | none => lowestPriorityPid type map pid priority
      | some tempPriority =>
        if pid = -1 ∨ tempPriority > priority then lowestPriorityPid type map tempPid tempPriority
        else lowestPriorityPid type map pid priority

def getLowestPriorityPid_l (type : ResourceType) : Option (Int × Int) :=
  let (pid, priority) := lowestPriorityPid p type s.mMap.entries (-1) (-1)
  if pid ≠ -1 then some (pid, priority) else none

/-- The inner loop of `getBiggestClient_l`, with `largestValue` and `clientTemp` so far. -/
def biggestResource (type : ResourceType) (client : κ) :
    List MediaResource → Nat → Option κ → Nat × Option κ
  | [], largestValue, clientTemp => (largestValue, clientTemp)
  | resource :: resources, largestValue, clientTemp =>
    if resource.mType = type ∧ resource.mValue > largestValue then
      biggestResource type client resources resource.mValue (some client)
    else biggestResource type client resources largestValue clientTemp

def biggestClient (type : ResourceType) :
    List (ResourceInfo κ) → Nat → Option κ → Option κ
  | [], _, clientTemp => clientTemp
  | info :: infos, largestValue, clientTemp =>
    let (largestValue, clientTemp) :=
      biggestResource type info.client info.resources largestValue clientTemp
    biggestClient type infos largestValue clientTemp

def getBiggestClient_l (pid : Int) (type : ResourceType) : Option κ :=
  (s.mMap.find? pid).bind fun infos => biggestClient type infos 0 none

def getLowestPriorityBiggestClient_l (callingPid : Int) (type : ResourceType) : Option κ :=
  match p.getPriority callingPid, s.getLowestPriorityPid_l p type with
  | some callingPriority, some (lowestPriorityPid, lowestPriority) =>
    if lowestPriority ≤ callingPriority then none
    else s.getBiggestClient_l lowestPriorityPid type
  | _, _ => none

def getClientForResource_l (callingPid : Int) (type : ResourceType) (clients : List κ) : List κ :=
  match s.getLowestPriorityBiggestClient_l p callingPid type with
  | some client => clients ++ [client]
  | none => clients

/-- The first pass of `reclaimResource`. -/
def conflictingClients (callingPid : Int) (secureCodec nonSecureCodec : Bool) :
    Option (List κ) := do
  let clients ← if secureCodec && !s.mSupportsMultipleSecureCodecs then
    s.getAllClients_l p callingPid .kSecureCodec [] else some []
  let clients ← if secureCodec && !s.mSupportsSecureWithNonSecureCodec then
    s.getAllClients_l p callingPid .kNonSecureCodec clients else some clients
  if nonSecureCodec && !s.mSupportsSecureWithNonSecureCodec then
    s.getAllClients_l p callingPid .kSecureCodec clients
  else some clients

/-- A pass over types of resources, if no client has been found before. -/
def pass (callingPid : Int) (types : List ResourceType) (clients : List κ) : List κ :=
  if clients = [] then
    types.foldl (fun clients type => s.getClientForResource_l p callingPid type clients) clients
  else clients

/-- The four passes of `reclaimResource`, where `none` is an early return. -/
def reclaimClients (callingPid : Int) (resources : List MediaResource) : Option (List κ) :=
  if ¬p.isValidPid callingPid then none
  else
    let secureCodec := hasResourceType .kSecureCodec resources
    let nonSecureCodec := hasResourceType .kNonSecureCodec resources
    let graphicMemory := hasResourceType .kGraphicMemory resources
    (s.conflictingClients p callingPid secureCodec nonSecureCodec).map fun clients =>
      let clients := s.pass p callingPid (if graphicMemory then [.kGraphicMemory] else []) clients
      let clients := s.pass p callingPid ((if secureCodec then [.kSecureCodec] else []) ++
        if nonSecureCodec then [.kNonSecureCodec] else []) clients
      s.pass p callingPid ((if secureCodec then [.kNonSecureCodec] else []) ++
        if nonSecureCodec then [.kSecureCodec] else []) clients

end Service

end MediaFramework.ResourceManager
