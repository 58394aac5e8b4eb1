import MediaFramework.ResourceManager.Service

/-!
# Reclaiming resources

Which clients `reclaimResource` asks. Priorities stay the same during a call.
-/

namespace MediaFramework.ResourceManager

variable {κ : Type*}

/-- The list of clients, those of it that have been asked, and the result. -/
structure Reclaim (κ : Type*) where
  clients : List κ
  asked : List κ
  result : Bool
  deriving DecidableEq

/-- The clients that are asked, and the one that does not agree. Client `i` of the list gives
`answers i`. -/
def askClients (answers : Nat → Bool) : Nat → List κ → List κ × Option κ
  | _, [] => ([], none)
  | i, client :: clients =>
    if answers i then
      let (asked, failedClient) := askClients answers (i + 1) clients
      (client :: asked, failedClient)
    else ([client], some client)

namespace Service

/-- `reclaimResource` without calls in between. -/
def reclaimResource [DecidableEq κ] (s : Service κ) (p : ProcessInfo) (callingPid : Int)
    (resources : List MediaResource) (answers : Nat → Bool) : Service κ × Reclaim κ :=
  match s.reclaimClients p callingPid resources with
  | none => (s, ⟨[], [], false⟩)
  | some clients =>
    if clients = [] then (s, ⟨[], [], false⟩)
    else
      match askClients answers 0 clients with
      | (asked, none) => (s, ⟨clients, asked, true⟩)
      | (asked, some failedClient) => (s.removeFailedClient failedClient, ⟨clients, asked, false⟩)

/-- The process has a client with the type of resource. -/
def Holds (s : Service κ) (type : ResourceType) (pid : Int) (client : κ) : Prop :=
  ∃ infos, (pid, infos) ∈ s.mMap.entries ∧
    ∃ info ∈ infos, info.client = client ∧ hasResourceType type info.resources

/-- The process has the client. -/
def Owns (s : Service κ) (pid : Int) (client : κ) : Prop :=
  ∃ infos, (pid, infos) ∈ s.mMap.entries ∧ ∃ info ∈ infos, info.client = client

/-- The types that conflict with what is requested. -/
def conflicts (s : Service κ) (resources : List MediaResource) : List ResourceType :=
  let secureCodec := hasResourceType .kSecureCodec resources
  let nonSecureCodec := hasResourceType .kNonSecureCodec resources
  (if secureCodec && !s.mSupportsMultipleSecureCodecs then [.kSecureCodec] else []) ++
    (if secureCodec && !s.mSupportsSecureWithNonSecureCodec then [.kNonSecureCodec] else []) ++
      if nonSecureCodec && !s.mSupportsSecureWithNonSecureCodec then [.kSecureCodec] else []

end Service

/-- Both priorities are known, and that of the process is the larger value. -/
def LowerPriority (p : ProcessInfo) (callingPid pid : Int) : Prop :=
  ∃ callingPriority ∈ p.getPriority callingPid, ∃ priority ∈ p.getPriority pid,
    callingPriority < priority

variable {s : Service κ} {p : ProcessInfo} {callingPid : Int} {type : ResourceType}

theorem isCallingPriorityHigher_l_iff {pid : Int} :
    Service.isCallingPriorityHigher_l p callingPid pid ↔ LowerPriority p callingPid pid := by
  rw [Service.isCallingPriorityHigher_l, LowerPriority]
  cases p.getPriority callingPid <;> cases p.getPriority pid <;> simp

/-! ### All clients with a type -/

theorem mem_holders {infos : List (ResourceInfo κ)} {client : κ} :
    client ∈ (infos.filter (hasResourceType type ·.resources)).map (·.client) ↔
      ∃ info ∈ infos, info.client = client ∧ hasResourceType type info.resources := by
  simp only [List.mem_map, List.mem_filter]
  constructor
  · rintro ⟨info, ⟨hinfo, htype⟩, hclient⟩
    exact ⟨info, hinfo, hclient, htype⟩
  · rintro ⟨info, hinfo, hclient, htype⟩
    exact ⟨info, ⟨hinfo, htype⟩, hclient⟩

/-- Every client of the list has a lower priority. -/
theorem allClients_lower {map : List (Int × List (ResourceInfo κ))} {clients : List κ}
    (h : Service.allClients p callingPid type map = some clients) {client : κ}
    (hclient : client ∈ clients) :
    ∃ pid infos, (pid, infos) ∈ map ∧ (∃ info ∈ infos, info.client = client) ∧
      LowerPriority p callingPid pid := by
  induction map generalizing clients with
  | nil =>
    cases h
    cases hclient
  | cons e map ih =>
    obtain ⟨pid, infos⟩ := e
    rw [Service.allClients] at h
    split at h
    · cases h
    · next hreclaimable =>
      obtain ⟨rest, hrest, rfl⟩ := Option.map_eq_some_iff.mp h
      obtain hclient | hclient := List.mem_append.mp hclient
      · obtain ⟨info, hinfo, rfl, htype⟩ := mem_holders.mp hclient
        refine ⟨pid, infos, List.mem_cons_self, ⟨info, hinfo, rfl⟩, ?_⟩
        have hsome : infos.filter (hasResourceType type ·.resources) ≠ [] :=
          List.ne_nil_of_mem (List.mem_filter.mpr ⟨hinfo, htype⟩)
        exact isCallingPriorityHigher_l_iff.mp (not_not.mp fun hlow => hreclaimable ⟨hsome, hlow⟩)
      · obtain ⟨pid', infos', hmem, howns⟩ := ih hrest hclient
        exact ⟨pid', infos', List.mem_cons_of_mem _ hmem, howns⟩

/-- Nothing with the type is left out. -/
theorem allClients_complete {map : List (Int × List (ResourceInfo κ))} {clients : List κ}
    (h : Service.allClients p callingPid type map = some clients) {pid : Int}
    {infos : List (ResourceInfo κ)} (hmem : (pid, infos) ∈ map) {info : ResourceInfo κ}
    (hinfo : info ∈ infos) (htype : hasResourceType type info.resources) :
    info.client ∈ clients := by
  induction map generalizing clients with
  | nil => cases hmem
  | cons e map ih =>
    obtain ⟨pid', infos'⟩ := e
    rw [Service.allClients] at h
    split at h
    · cases h
    · obtain ⟨rest, hrest, rfl⟩ := Option.map_eq_some_iff.mp h
      obtain heq | hmem := List.mem_cons.mp hmem
      · cases heq
        exact List.mem_append_left _ (mem_holders.mpr ⟨info, hinfo, rfl, htype⟩)
      · exact List.mem_append_right _ (ih hrest hmem)

theorem allClients_none {map : List (Int × List (ResourceInfo κ))}
    (h : Service.allClients p callingPid type map = none) :
    ∃ pid infos, (pid, infos) ∈ map ∧ (∃ info ∈ infos, hasResourceType type info.resources) ∧
      ¬LowerPriority p callingPid pid := by
  induction map with
  | nil => cases h
  | cons e map ih =>
    obtain ⟨pid, infos⟩ := e
    rw [Service.allClients] at h
    split at h
    · next hblocked =>
      obtain ⟨info, hinfo⟩ := List.exists_mem_of_ne_nil _ hblocked.1
      obtain ⟨hinfo, htype⟩ := List.mem_filter.mp hinfo
      refine ⟨pid, infos, List.mem_cons_self, ⟨info, hinfo, htype⟩, ?_⟩
      rw [← isCallingPriorityHigher_l_iff]
      exact hblocked.2
    · obtain ⟨pid', infos', hmem, hholds⟩ := ih (Option.map_eq_none_iff.mp h)
      exact ⟨pid', infos', List.mem_cons_of_mem _ hmem, hholds⟩

/-! ### The biggest client of the lowest priority -/

theorem lowestPriorityPid_priority (type : ResourceType)
    (map : List (Int × List (ResourceInfo κ))) (pid priority : Int)
    (h : pid ≠ -1 → p.getPriority pid = some priority) :
    let found := Service.lowestPriorityPid p type map pid priority
    found.1 ≠ -1 → p.getPriority found.1 = some found.2 := by
  induction map generalizing pid priority with
  | nil => exact h
  | cons e map ih =>
    obtain ⟨tempPid, infos⟩ := e
    rw [Service.lowestPriorityPid]
    split
    · exact ih _ _ h
    · cases htemp : p.getPriority tempPid with
      | none => exact ih _ _ h
      | some tempPriority =>
        dsimp only
        split
        · exact ih _ _ fun _ => htemp
        · exact ih _ _ h

theorem biggestResource_client (client : κ) (resources : List MediaResource) (largestValue : Nat)
    (clientTemp : Option κ) :
    (Service.biggestResource type client resources largestValue clientTemp).2 = clientTemp ∨
      (Service.biggestResource type client resources largestValue clientTemp).2 = some client := by
  induction resources generalizing largestValue clientTemp with
  | nil => exact .inl rfl
  | cons resource resources ih =>
    rw [Service.biggestResource]
    split
    · exact .inr ((ih _ _).elim id id)
    · exact ih _ _

theorem biggestClient_client (infos : List (ResourceInfo κ)) (largestValue : Nat)
    (clientTemp : Option κ) {client : κ}
    (h : Service.biggestClient type infos largestValue clientTemp = some client) :
    clientTemp = some client ∨ ∃ info ∈ infos, info.client = client := by
  induction infos generalizing largestValue clientTemp with
  | nil => exact .inl h
  | cons info infos ih =>
    rw [Service.biggestClient] at h
    obtain hfirst | ⟨info', hinfo', rfl⟩ := ih _ _ h
    · obtain hsame | hsame := biggestResource_client info.client info.resources largestValue clientTemp
      · exact .inl (hsame.symm.trans hfirst)
      · exact .inr ⟨info, List.mem_cons_self, Option.some.inj (hsame.symm.trans hfirst)⟩
    · exact .inr ⟨info', List.mem_cons_of_mem _ hinfo', rfl⟩

theorem getLowestPriorityBiggestClient_l_lower {client : κ}
    (h : s.getLowestPriorityBiggestClient_l p callingPid type = some client) :
    ∃ pid, s.Owns pid client ∧ LowerPriority p callingPid pid := by
  rw [Service.getLowestPriorityBiggestClient_l] at h
  split at h
  · next callingPriority pid priority hcalling hlowest =>
    split at h
    · cases h
    · next hlt =>
      have hpriority : p.getPriority pid = some priority := by
        have hfound := lowestPriorityPid_priority (p := p) type s.mMap.entries (-1) (-1) (absurd rfl)
        rw [Service.getLowestPriorityPid_l] at hlowest
        dsimp only at hlowest
        split at hlowest
        · next hne =>
          obtain ⟨hpid, hpriority⟩ := Prod.mk.inj (Option.some.inj hlowest)
          rw [← hpid, ← hpriority]
          exact hfound hne
        · cases hlowest
      obtain ⟨infos, hinfos, hbiggest⟩ := Option.bind_eq_some_iff.mp h
      obtain hnone | hinfo := biggestClient_client infos 0 none hbiggest
      · cases hnone
      · exact ⟨pid, ⟨infos, s.mMap.find?_eq_some.mp hinfos, hinfo⟩, callingPriority, hcalling,
          priority, hpriority, not_le.mp hlt⟩
  · cases h

/-! ### The passes -/

/-- Every client of the list belongs to a process of lower priority. -/
def Reclaimable (s : Service κ) (p : ProcessInfo) (callingPid : Int) (clients : List κ) : Prop :=
  ∀ client ∈ clients, ∃ pid, s.Owns pid client ∧ LowerPriority p callingPid pid

variable {clients : List κ}

theorem getClientForResource_l_reclaimable (h : Reclaimable s p callingPid clients) :
    Reclaimable s p callingPid (s.getClientForResource_l p callingPid type clients) := by
  rw [Service.getClientForResource_l]
  split
  · next client hfound =>
    intro c hc
    obtain hc | hc := List.mem_append.mp hc
    · exact h c hc
    · rw [List.mem_singleton.mp hc]
      exact getLowestPriorityBiggestClient_l_lower hfound
  · exact h

/-- A pass adds clients of lower priority. -/
theorem pass_reclaimable (types : List ResourceType) (h : Reclaimable s p callingPid clients) :
    Reclaimable s p callingPid (s.pass p callingPid types clients) := by
  rw [Service.pass]
  split
  · clear * - h
    induction types generalizing clients with
    | nil => exact h
    | cons type types ih => exact ih (getClientForResource_l_reclaimable h)
  · exact h

/-- A list that is not empty stays as it is. -/
theorem subset_pass (types : List ResourceType) :
    clients ⊆ s.pass p callingPid types clients := by
  rw [Service.pass]
  split
  · next hempty =>
    rw [hempty]
    exact List.nil_subset _
  · exact fun client hclient => hclient

/-- The first pass goes over the types that conflict. -/
def collect (s : Service κ) (p : ProcessInfo) (callingPid : Int) :
    List ResourceType → List κ → Option (List κ)
  | [], clients => some clients
  | type :: types, clients =>
    (s.getAllClients_l p callingPid type clients).bind (collect s p callingPid types)

theorem conflictingClients_eq (s : Service κ) (p : ProcessInfo) (callingPid : Int)
    (resources : List MediaResource) :
    s.conflictingClients p callingPid (hasResourceType .kSecureCodec resources)
        (hasResourceType .kNonSecureCodec resources) =
      collect s p callingPid (s.conflicts resources) [] := by
  rw [Service.conflictingClients, Service.conflicts]
  dsimp only
  cases hasResourceType .kSecureCodec resources <;>
    cases hasResourceType .kNonSecureCodec resources <;>
    cases s.mSupportsMultipleSecureCodecs <;>
    cases s.mSupportsSecureWithNonSecureCodec <;>
    simp [collect]

theorem collect_some {types : List ResourceType} {found : List κ}
    (h : collect s p callingPid types clients = some found)
    (hclients : Reclaimable s p callingPid clients) :
    Reclaimable s p callingPid found ∧ clients ⊆ found ∧
      ∀ type ∈ types, ∀ pid client, s.Holds type pid client → client ∈ found := by
  induction types generalizing clients with
  | nil =>
    cases h
    exact ⟨hclients, fun c hc => hc, fun _ ht => absurd ht List.not_mem_nil⟩
  | cons type types ih =>
    obtain ⟨next, hnext, hrest⟩ := Option.bind_eq_some_iff.mp h
    obtain ⟨holders, hholders, rfl⟩ := Option.map_eq_some_iff.mp hnext
    have hreclaimable : Reclaimable s p callingPid (clients ++ holders) := by
      intro client hclient
      obtain hclient | hclient := List.mem_append.mp hclient
      · exact hclients client hclient
      · obtain ⟨pid, infos, hmem, howns, hlower⟩ := allClients_lower hholders hclient
        exact ⟨pid, ⟨infos, hmem, howns⟩, hlower⟩
    obtain ⟨hfound, hsubset, hall⟩ := ih hrest hreclaimable
    refine ⟨hfound, fun c hc => hsubset (List.mem_append_left _ hc), ?_⟩
    intro t ht pid client hholds
    obtain rfl | ht := List.mem_cons.mp ht
    · obtain ⟨infos, hmem, info, hinfo, rfl, htype⟩ := hholds
      exact hsubset (List.mem_append_right _ (allClients_complete hholders hmem hinfo htype))
    · exact hall t ht pid client hholds

theorem collect_none {types : List ResourceType} (h : collect s p callingPid types clients = none) :
    ∃ type ∈ types, ∃ pid client, s.Holds type pid client ∧ ¬LowerPriority p callingPid pid := by
  induction types generalizing clients with
  | nil => cases h
  | cons type types ih =>
    rw [collect] at h
    cases hnext : s.getAllClients_l p callingPid type clients with
    | none =>
      obtain ⟨pid, infos, hmem, ⟨info, hinfo, htype⟩, hlow⟩ :=
        allClients_none (Option.map_eq_none_iff.mp hnext)
      exact ⟨type, List.mem_cons_self, pid, info.client,
        ⟨infos, hmem, info, hinfo, rfl, htype⟩, hlow⟩
    | some next =>
      rw [hnext] at h
      obtain ⟨t, ht, hblocked⟩ := ih h
      exact ⟨t, List.mem_cons_of_mem _ ht, hblocked⟩

/-- What stands in the way of a request: a calling pid that is not valid or has no known priority,
or a process with a conflicting codec and a priority that is equal, higher or not known. -/
def Blocked (s : Service κ) (p : ProcessInfo) (callingPid : Int) (resources : List MediaResource) :
    Prop :=
  p.isValidPid callingPid = false ∨ p.getPriority callingPid = none ∨
    ∃ type ∈ s.conflicts resources, ∃ pid client, s.Holds type pid client ∧
      ∀ priority ∈ p.getPriority pid, ∀ callingPriority ∈ p.getPriority callingPid,
        priority ≤ callingPriority

theorem blocked_of_collect {resources : List MediaResource}
    (h : collect s p callingPid (s.conflicts resources) clients = none) :
    Blocked s p callingPid resources := by
  obtain ⟨type, htype, pid, client, hholds, hlow⟩ := collect_none h
  refine .inr (.inr ⟨type, htype, pid, client, hholds, ?_⟩)
  intro priority hpriority callingPriority hcalling
  by_contra hlt
  exact hlow ⟨callingPriority, hcalling, priority, hpriority, not_le.mp hlt⟩

theorem reclaimClients_some {resources : List MediaResource}
    (h : s.reclaimClients p callingPid resources = some clients) :
    Reclaimable s p callingPid clients ∧
      ∀ type ∈ s.conflicts resources, ∀ pid client, s.Holds type pid client → client ∈ clients := by
  rw [Service.reclaimClients] at h
  split at h
  · cases h
  · dsimp only at h
    rw [conflictingClients_eq] at h
    obtain ⟨found, hfound, rfl⟩ := Option.map_eq_some_iff.mp h
    obtain ⟨hreclaimable, -, hall⟩ := collect_some hfound fun _ hc => absurd hc List.not_mem_nil
    refine ⟨pass_reclaimable _ (pass_reclaimable _ (pass_reclaimable _ hreclaimable)), ?_⟩
    intro type htype pid client hholds
    exact subset_pass _ (subset_pass _ (subset_pass _ (hall type htype pid client hholds)))

theorem reclaimClients_none {resources : List MediaResource}
    (h : s.reclaimClients p callingPid resources = none) : Blocked s p callingPid resources := by
  rw [Service.reclaimClients] at h
  split at h
  · next hvalid => exact .inl (Bool.eq_false_iff.mpr hvalid)
  · dsimp only at h
    rw [conflictingClients_eq] at h
    exact blocked_of_collect (Option.map_eq_none_iff.mp h)

/-! ### The answers -/

theorem askClients_spec (answers : Nat → Bool) (i : Nat) (clients : List κ) :
    (askClients answers i clients).1 <+: clients ∧
      ((askClients answers i clients).2 = none → (askClients answers i clients).1 = clients ∧
        ∀ j < clients.length, answers (i + j) = true) := by
  induction clients generalizing i with
  | nil => exact ⟨List.prefix_rfl, fun _ => ⟨rfl, fun j hj => absurd hj (Nat.not_lt_zero j)⟩⟩
  | cons client clients ih =>
    obtain ⟨hstart, hall⟩ := ih (i + 1)
    rw [askClients]
    split
    · next hagreed =>
      refine ⟨(List.prefix_cons_inj client).mpr hstart, ?_⟩
      intro hnone
      obtain ⟨hasked, hagree⟩ := hall hnone
      refine ⟨congrArg _ hasked, ?_⟩
      intro j hj
      cases j with
      | zero => exact hagreed
      | succ j =>
        have hnext := hagree j (Nat.lt_of_succ_lt_succ hj)
        rw [Nat.add_right_comm] at hnext
        exact hnext
    · exact ⟨⟨clients, rfl⟩, fun hsome => by cases hsome⟩

/-- Only clients of processes with lower priority are asked. If there is a conflict, either all
clients that hold a conflicting codec are on the list, or something stands in the way and nobody is
asked. The result is true only if there are clients and all agree. -/
theorem reclaimResource_spec [DecidableEq κ] (s : Service κ) (p : ProcessInfo) (callingPid : Int)
    (resources : List MediaResource) (answers : Nat → Bool) :
    let r := (s.reclaimResource p callingPid resources answers).2
    (∀ client ∈ r.clients, ∃ pid, s.Owns pid client ∧ LowerPriority p callingPid pid) ∧
      r.asked <+: r.clients ∧
      ((∀ type ∈ s.conflicts resources, ∀ pid client, s.Holds type pid client →
          client ∈ r.clients) ∨
        Blocked s p callingPid resources ∧ r.clients = [] ∧ r.asked = [] ∧ r.result = false) ∧
      (r.result = true → r.clients ≠ [] ∧ r.asked = r.clients ∧
        ∀ i < r.clients.length, answers i = true) := by
  rw [Service.reclaimResource]
  cases hclients : s.reclaimClients p callingPid resources with
  | none =>
    exact ⟨fun _ hc => absurd hc List.not_mem_nil, List.prefix_rfl,
      .inr ⟨reclaimClients_none hclients, rfl, rfl, rfl⟩, fun h => by cases h⟩
  | some clients =>
    obtain ⟨hreclaimable, hall⟩ := reclaimClients_some hclients
    dsimp only
    split
    · next hempty =>
      rw [hempty] at hall
      exact ⟨fun _ hc => absurd hc List.not_mem_nil, List.prefix_rfl, .inl hall,
        fun h => by cases h⟩
    · next hsome =>
      obtain ⟨hstart, hagreed⟩ := askClients_spec answers 0 clients
      generalize askClients answers 0 clients = res at hstart hagreed
      obtain ⟨asked, failedClient⟩ := res
      cases failedClient with
      | none =>
        obtain ⟨hasked, hanswers⟩ := hagreed rfl
        refine ⟨hreclaimable, hstart, .inl hall, fun _ => ⟨hsome, hasked, ?_⟩⟩
        intro i hi
        have hanswer := hanswers i hi
        rw [Nat.zero_add] at hanswer
        exact hanswer
      | some failedClient => exact ⟨hreclaimable, hstart, .inl hall, fun h => by cases h⟩

/-- A calling pid that is not valid, or that has no known priority, gets nothing, even if the only
holder of a conflicting codec has a lower priority. -/
theorem conflict_left_for_caller :
    let valid : ProcessInfo := ⟨fun _ => true, fun pid => if pid = 1 then none else some pid⟩
    let invalid : ProcessInfo := ⟨fun _ => false, fun pid => some pid⟩
    let s : Service Char := { mSupportsMultipleSecureCodecs := false }
    let s := s.addResource valid 5 10 'a' [⟨.kSecureCodec, 1⟩]
    s.mMap.entries = [(5, [⟨10, 'a', [⟨.kSecureCodec, 1⟩], false⟩])] ∧
      s.conflicts [⟨.kSecureCodec, 1⟩] = [.kSecureCodec] ∧
      valid.getPriority 5 = some 5 ∧ valid.getPriority 1 = none ∧
      (s.reclaimResource valid 1 [⟨.kSecureCodec, 1⟩] fun _ => true).2.clients = [] ∧
      invalid.getPriority 5 = some 5 ∧ invalid.getPriority 1 = some 1 ∧
      (s.reclaimResource invalid 1 [⟨.kSecureCodec, 1⟩] fun _ => true).2.clients = [] := by
  decide

end MediaFramework.ResourceManager
