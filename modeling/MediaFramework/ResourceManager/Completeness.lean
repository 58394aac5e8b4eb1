import MediaFramework.ResourceManager.Reclaim

/-!
# When a reclaim finds a client

The process is chosen among those that list the type of resource, the client among those that
have some of it. A process that lists the type with nothing behind it hides the others.
-/

namespace MediaFramework.ResourceManager

variable {κ : Type*}

namespace Service

/-- The process lists the type, with some value. -/
def Lists (s : Service κ) (type : ResourceType) (pid : Int) : Prop :=
  ∃ client, s.Holds type pid client

/-- The process has a positive amount of the type. -/
def HasSome (s : Service κ) (type : ResourceType) (pid : Int) : Prop :=
  ∃ infos, (pid, infos) ∈ s.mMap.entries ∧
    ∃ info ∈ infos, ∃ r ∈ info.resources, r.mType = type ∧ 0 < r.mValue

/-- The process has the lowest known priority of those that list the type. Among equals it is the
one with the smallest pid. -/
def Lowest (s : Service κ) (p : ProcessInfo) (type : ResourceType) (pid : Int) : Prop :=
  s.Lists type pid ∧ ∃ priority ∈ p.getPriority pid, ∀ pid', s.Lists type pid' →
    ∀ priority' ∈ p.getPriority pid', priority' < priority ∨ priority' = priority ∧ pid ≤ pid'

/-- The client has the largest single value of the type in its process, and no process with a
positive amount of the type has a lower known priority. -/
def Biggest (s : Service κ) (p : ProcessInfo) (type : ResourceType) (client : κ) : Prop :=
  ∃ pid infos, (pid, infos) ∈ s.mMap.entries ∧
    (∃ priority ∈ p.getPriority pid, ∀ pid', s.HasSome type pid' →
      ∀ priority' ∈ p.getPriority pid', priority' ≤ priority) ∧
    ∃ info ∈ infos, info.client = client ∧
      ∃ r ∈ info.resources, r.mType = type ∧ 0 < r.mValue ∧
        ∀ info' ∈ infos, ∀ r' ∈ info'.resources, r'.mType = type → r'.mValue ≤ r.mValue

end Service

/-- The types of the passes after the first one. -/
def wanted (resources : List MediaResource) : List ResourceType :=
  (if hasResourceType .kGraphicMemory resources then [.kGraphicMemory] else []) ++
    if hasResourceType .kSecureCodec resources ∨ hasResourceType .kNonSecureCodec resources then
      [.kSecureCodec, .kNonSecureCodec]
    else []

variable {s : Service κ} {p : ProcessInfo} {callingPid : Int} {type : ResourceType}

theorem Service.HasSome.lists {pid : Int} (h : s.HasSome type pid) : s.Lists type pid := by
  obtain ⟨infos, hinfos, info, hinfo, r, hr, htype, -⟩ := h
  exact ⟨info.client, infos, hinfos, info, hinfo, rfl,
    List.any_eq_true.mpr ⟨r, hr, decide_eq_true htype⟩⟩

theorem infos_unique {pid : Int} {infos infos' : List (ResourceInfo κ)}
    (h : (pid, infos) ∈ s.mMap.entries) (h' : (pid, infos') ∈ s.mMap.entries) : infos' = infos := by
  rw [← s.mMap.find?_eq_some] at h h'
  exact Option.some.inj (h'.symm.trans h)

theorem lists_iff {pid : Int} {infos : List (ResourceInfo κ)}
    (h : (pid, infos) ∈ s.mMap.entries) :
    infos.any (hasResourceType type ·.resources) ↔ s.Lists type pid := by
  rw [List.any_eq_true]
  constructor
  · rintro ⟨info, hinfo, htype⟩
    exact ⟨info.client, infos, h, info, hinfo, rfl, htype⟩
  · rintro ⟨_, infos', h', info, hinfo, -, htype⟩
    rw [infos_unique h h'] at hinfo
    exact ⟨info, hinfo, htype⟩

/-! ### The biggest client -/

theorem biggestResource_spec (type : ResourceType) (client : κ) (resources : List MediaResource) (largestValue : Nat)
    (clientTemp : Option κ) :
    let found := Service.biggestResource type client resources largestValue clientTemp
    (found = (largestValue, clientTemp) ∨
      ∃ r ∈ resources, r.mType = type ∧ largestValue < r.mValue ∧ found = (r.mValue, some client)) ∧
      largestValue ≤ found.1 ∧ ∀ r ∈ resources, r.mType = type → r.mValue ≤ found.1 := by
  induction resources generalizing largestValue clientTemp with
  | nil => exact ⟨.inl rfl, Nat.le_refl _, nofun⟩
  | cons resource resources ih =>
    rw [Service.biggestResource]
    split
    next hbigger =>
      obtain ⟨hfound, hle, hall⟩ := ih resource.mValue (some client)
      have hlt := Nat.lt_of_lt_of_le hbigger.2 hle
      refine ⟨.inr ?_, Nat.le_of_lt hlt, List.forall_mem_cons.mpr ⟨fun _ => hle, hall⟩⟩
      rcases hfound with heq | ⟨r, hr, htype, hr', heq⟩
      · exact ⟨resource, List.mem_cons_self, hbigger.1, hbigger.2, heq⟩
      · exact ⟨r, List.mem_cons_of_mem _ hr, htype, Nat.lt_trans hbigger.2 hr', heq⟩
    next hsmaller =>
      obtain ⟨hfound, hle, hall⟩ := ih largestValue clientTemp
      refine ⟨hfound.imp_right ?_, hle, List.forall_mem_cons.mpr ⟨fun htype => ?_, hall⟩⟩
      · rintro ⟨r, hr, hrest⟩
        exact ⟨r, List.mem_cons_of_mem _ hr, hrest⟩
      · exact Nat.le_trans (Nat.le_of_not_lt fun hlt => hsmaller ⟨htype, hlt⟩) hle

theorem biggestClient_spec (type : ResourceType) (infos : List (ResourceInfo κ)) (largestValue : Nat)
    (clientTemp : Option κ) :
    let found := Service.biggestClient type infos largestValue clientTemp
    (found = clientTemp ∧
        ∀ info ∈ infos, ∀ r ∈ info.resources, r.mType = type → r.mValue ≤ largestValue) ∨
      ∃ info ∈ infos, found = some info.client ∧
        ∃ r ∈ info.resources, r.mType = type ∧ largestValue < r.mValue ∧
          ∀ info' ∈ infos, ∀ r' ∈ info'.resources, r'.mType = type → r'.mValue ≤ r.mValue := by
  induction infos generalizing largestValue clientTemp with
  | nil => exact .inl ⟨rfl, nofun⟩
  | cons info infos ih =>
    rw [Service.biggestClient]
    obtain ⟨hfirst, hle, hall⟩ :=
      biggestResource_spec type info.client info.resources largestValue clientTemp
    generalize Service.biggestResource type info.client info.resources largestValue clientTemp =
      first at hfirst hle hall
    obtain ⟨value, client⟩ := first
    rcases ih value client with ⟨heq, hrest⟩ | ⟨info', hinfo', heq, r, hr, htype, hlt, hrest⟩
    · rcases hfirst with hsame | ⟨r, hr, htype, hlt, hnew⟩
      · obtain ⟨rfl, rfl⟩ := Prod.mk.inj hsame
        exact .inl ⟨heq, List.forall_mem_cons.mpr ⟨hall, hrest⟩⟩
      · obtain ⟨rfl, rfl⟩ := Prod.mk.inj hnew
        exact .inr ⟨info, List.mem_cons_self, heq, r, hr, htype, hlt,
          List.forall_mem_cons.mpr ⟨hall, hrest⟩⟩
    · refine .inr ⟨info', List.mem_cons_of_mem _ hinfo', heq, r, hr, htype,
        Nat.lt_of_le_of_lt hle hlt, List.forall_mem_cons.mpr ⟨?_, hrest⟩⟩
      intro r' hr' htype'
      exact Nat.le_trans (hall r' hr' htype') (Nat.le_of_lt hlt)

/-! ### The lowest process -/

/-- The second process comes no later than the first one: its priority is lower, or it is the same
and so is the order of the pids. -/
def NoLower (e found : Int × Int) : Prop :=
  e.2 < found.2 ∨ e.2 = found.2 ∧ found.1 ≤ e.1

theorem NoLower.trans {e e' found : Int × Int} (h : NoLower e e') (h' : NoLower e' found) :
    NoLower e found := by
  unfold NoLower at *
  omega

theorem lowestPriorityPid_spec (p : ProcessInfo) (type : ResourceType)
    {map : List (Int × List (ResourceInfo κ))}
    (hsorted : (map.map Prod.fst).Pairwise (· < ·)) (hpids : ∀ e ∈ map, e.1 ≠ -1)
    (pid priority : Int) (hbefore : pid ≠ -1 → ∀ e ∈ map, pid < e.1) :
    let found := Service.lowestPriorityPid p type map pid priority
    (found = (pid, priority) ∨ found.1 ≠ -1 ∧ p.getPriority found.1 = some found.2 ∧
      ∃ infos, (found.1, infos) ∈ map ∧ infos.any (hasResourceType type ·.resources)) ∧
      (pid ≠ -1 → found.1 ≠ -1 ∧ NoLower (pid, priority) found) ∧
      ∀ e ∈ map, e.2.any (hasResourceType type ·.resources) → ∀ q ∈ p.getPriority e.1,
        found.1 ≠ -1 ∧ NoLower (e.1, q) found := by
  induction map generalizing pid priority with
  | nil => exact ⟨.inl rfl, fun h => ⟨h, .inr ⟨rfl, le_refl _⟩⟩, nofun⟩
  | cons e map ih =>
    obtain ⟨tempPid, infos⟩ := e
    obtain ⟨hfirst, hsorted⟩ := List.pairwise_cons.mp hsorted
    obtain ⟨hpid, hpids⟩ := List.forall_mem_cons.mp hpids
    have hrest : pid ≠ -1 → ∀ e ∈ map, pid < e.1 := fun h e he =>
      hbefore h e (List.mem_cons_of_mem _ he)
    have htemp : ∀ e ∈ map, tempPid < e.1 := fun e he => hfirst e.1 (List.mem_map_of_mem he)
    obtain ⟨hfound, hkept, hall⟩ := ih hsorted hpids pid priority hrest
    have hlater : ∀ {found : Int × Int}, (found.1 ≠ -1 ∧ p.getPriority found.1 = some found.2 ∧
          ∃ infos, (found.1, infos) ∈ map ∧ infos.any (hasResourceType type ·.resources)) →
        found.1 ≠ -1 ∧ p.getPriority found.1 = some found.2 ∧
          ∃ infos', (found.1, infos') ∈ (tempPid, infos) :: map ∧
            infos'.any (hasResourceType type ·.resources) :=
      fun ⟨h, hpriority, infos', hmem, hlists⟩ =>
        ⟨h, hpriority, infos', List.mem_cons_of_mem _ hmem, hlists⟩
    rw [Service.lowestPriorityPid]
    split
    next hnone =>
      exact ⟨hfound.imp_right hlater, hkept,
        List.forall_mem_cons.mpr ⟨fun hlists => absurd hlists hnone, hall⟩⟩
    next hlists =>
    rw [not_not] at hlists
    cases hpriority : p.getPriority tempPid with
    | none =>
      refine ⟨hfound.imp_right hlater, hkept, List.forall_mem_cons.mpr ⟨fun _ q hq => ?_, hall⟩⟩
      rw [hpriority] at hq
      cases hq
    | some tempPriority =>
      have heq : ∀ q ∈ p.getPriority tempPid, q = tempPriority := fun q hq =>
        Option.some.inj (hq.symm.trans hpriority)
      dsimp only
      split
      next htake =>
        obtain ⟨hfound, hkept, hall⟩ := ih hsorted hpids tempPid tempPriority fun _ => htemp
        obtain ⟨hsome, hlow⟩ := hkept hpid
        refine ⟨.inr ?_, fun hne => ⟨hsome, .trans (.inl (htake.resolve_left hne)) hlow⟩,
          List.forall_mem_cons.mpr ⟨fun _ q hq => ?_, hall⟩⟩
        · rcases hfound with hsame | hnew
          · rw [hsame]
            exact ⟨hpid, hpriority, infos, List.mem_cons_self, hlists⟩
          · exact hlater hnew
        · rw [heq q hq]
          exact ⟨hsome, hlow⟩
      next hkeep =>
        obtain ⟨hne, hge⟩ := not_or.mp hkeep
        obtain ⟨hsome, hlow⟩ := hkept hne
        refine ⟨hfound.imp_right hlater, hkept,
          List.forall_mem_cons.mpr ⟨fun _ q hq => ⟨hsome, .trans ?_ hlow⟩, hall⟩⟩
        rw [heq q hq]
        have hpids := hbefore hne _ List.mem_cons_self
        exact (lt_or_eq_of_le (not_lt.mp hge)).imp_right fun h => ⟨h, le_of_lt hpids⟩

/-- `-1` stands for no process in the search. -/
def Service.RealPids (s : Service κ) : Prop :=
  ∀ e ∈ s.mMap.entries, e.1 ≠ -1

theorem getLowestPriorityPid_l_iff (hpids : s.RealPids) {pid priority : Int} :
    s.getLowestPriorityPid_l p type = some (pid, priority) ↔
      s.Lowest p type pid ∧ p.getPriority pid = some priority := by
  obtain ⟨hfound, -, hall⟩ :=
    lowestPriorityPid_spec p type s.mMap.sorted hpids (-1) (-1) (absurd rfl)
  rw [Service.getLowestPriorityPid_l]
  generalize Service.lowestPriorityPid p type s.mMap.entries (-1) (-1) = found at hfound hall
  obtain ⟨found, lowest⟩ := found
  dsimp only at hfound hall ⊢
  have hlowest : ∀ pid', s.Lists type pid' → ∀ q ∈ p.getPriority pid',
      found ≠ -1 ∧ NoLower (pid', q) (found, lowest) := by
    rintro pid' ⟨client, infos, hinfos, info, hinfo, hrest⟩
    exact hall _ hinfos ((lists_iff hinfos).mpr ⟨client, infos, hinfos, info, hinfo, hrest⟩)
  constructor
  · intro h
    split at h
    · obtain ⟨rfl, rfl⟩ := Prod.mk.inj (Option.some.inj h)
      obtain ⟨-, hpriority, infos, hinfos, hlists⟩ := hfound.resolve_left fun hsame => by
        obtain ⟨rfl, -⟩ := Prod.mk.inj hsame
        contradiction
      exact ⟨⟨(lists_iff hinfos).mp hlists, lowest, hpriority, fun pid' hlists' q hq =>
        (hlowest pid' hlists' q hq).2⟩, hpriority⟩
    · cases h
  · rintro ⟨⟨hlists, priority', hpriority', hbest⟩, hpriority⟩
    obtain rfl : priority' = priority := Option.some.inj (hpriority'.symm.trans hpriority)
    obtain ⟨hne, hlow⟩ := hlowest pid hlists priority' hpriority
    rw [if_pos hne]
    obtain ⟨-, hpriority, infos, hinfos, hlists⟩ := hfound.resolve_left fun hsame =>
      hne (Prod.mk.inj hsame).1
    -- the two are no lower than each other
    have hback := hbest found ((lists_iff hinfos).mp hlists) lowest hpriority
    rw [NoLower] at hlow
    dsimp only at hlow
    have hpid : found = pid := by omega
    have hsame : lowest = priority' := by omega
    rw [hpid, hsame]

/-! ### One client -/

theorem getLowestPriorityBiggestClient_l_some (hpids : s.RealPids) {client : κ}
    (h : s.getLowestPriorityBiggestClient_l p callingPid type = some client) :
    s.Biggest p type client ∧
      ∃ pid, s.Lowest p type pid ∧ s.HasSome type pid ∧ LowerPriority p callingPid pid := by
  rw [Service.getLowestPriorityBiggestClient_l] at h
  split at h
  next callingPriority pid priority hcalling hfound =>
    split at h
    · cases h
    next hlt =>
    obtain ⟨hlowest, hpriority⟩ := (getLowestPriorityPid_l_iff hpids).mp hfound
    obtain ⟨infos, hinfos, hbiggest⟩ := Option.bind_eq_some_iff.mp h
    rw [s.mMap.find?_eq_some] at hinfos
    rcases biggestClient_spec type infos 0 none with ⟨hnone, -⟩ | ⟨info, hinfo, hclient, r, hr, hrest⟩
    · rw [hbiggest] at hnone
      cases hnone
    rw [hbiggest] at hclient
    obtain rfl := Option.some.inj hclient
    refine ⟨⟨pid, infos, hinfos, ⟨priority, hpriority, fun pid' hsome q hq => ?_⟩, info, hinfo,
      rfl, r, hr, hrest⟩, pid, hlowest, ⟨infos, hinfos, info, hinfo, r, hr, hrest.1, hrest.2.1⟩,
      callingPriority, hcalling, priority, hpriority, not_le.mp hlt⟩
    obtain ⟨-, priority', hpriority', hbest⟩ := hlowest
    obtain rfl : priority' = priority := Option.some.inj (hpriority'.symm.trans hpriority)
    have hq := hbest pid' hsome.lists q hq
    omega
  · cases h

theorem getLowestPriorityBiggestClient_l_isSome (hpids : s.RealPids) {pid : Int}
    (hlowest : s.Lowest p type pid) (hsome : s.HasSome type pid)
    (hlower : LowerPriority p callingPid pid) :
    ∃ client, s.getLowestPriorityBiggestClient_l p callingPid type = some client := by
  obtain ⟨callingPriority, hcalling, priority, hpriority, hlt⟩ := hlower
  obtain ⟨infos, hinfos, info, hinfo, r, hr, htype, hpos⟩ := hsome
  have hfound := (getLowestPriorityPid_l_iff hpids).mpr ⟨hlowest, hpriority⟩
  rw [Service.getLowestPriorityBiggestClient_l, Option.mem_def.mp hcalling, hfound]
  dsimp only
  rw [if_neg (not_le.mpr hlt), Service.getBiggestClient_l, s.mMap.find?_eq_some.mpr hinfos,
    Option.bind_some]
  rcases biggestClient_spec type infos 0 none with ⟨-, hall⟩ | ⟨info, -, hclient, -⟩
  · exact absurd (hall info hinfo r hr htype) (Nat.not_le_of_lt hpos)
  · exact ⟨_, hclient⟩

/-! ### The passes -/

theorem pass_eq (types : List ResourceType) (clients : List κ) :
    s.pass p callingPid types clients =
      if clients = [] then types.filterMap (s.getLowestPriorityBiggestClient_l p callingPid ·)
      else clients := by
  have hfold : types.foldl (fun clients type => s.getClientForResource_l p callingPid type clients)
      clients =
      clients ++ types.filterMap (s.getLowestPriorityBiggestClient_l p callingPid ·) := by
    induction types generalizing clients with
    | nil => exact (List.append_nil _).symm
    | cons type types ih =>
      rw [List.foldl_cons, ih, Service.getClientForResource_l, List.filterMap_cons]
      split
      next hclient => rw [hclient, List.append_assoc, List.singleton_append]
      next hclient => rw [hclient]
  rw [Service.pass]
  split
  next hempty => rw [hfold, hempty, List.nil_append]
  · rfl

theorem mem_pass {types : List ResourceType} {clients : List κ} {client : κ}
    (h : client ∈ s.pass p callingPid types clients) :
    client ∈ clients ∨
      ∃ type ∈ types, s.getLowestPriorityBiggestClient_l p callingPid type = some client := by
  rw [pass_eq] at h
  split at h
  · exact .inr (List.mem_filterMap.mp h)
  · exact .inl h

theorem pass_nil {types : List ResourceType} {clients : List κ}
    (h : s.pass p callingPid types clients = []) :
    clients = [] ∧
      ∀ type ∈ types, s.getLowestPriorityBiggestClient_l p callingPid type = none := by
  rw [pass_eq] at h
  split at h
  next hempty => exact ⟨hempty, List.filterMap_eq_nil_iff.mp h⟩
  next hsome => exact absurd h hsome

theorem allClients_nil {map : List (Int × List (ResourceInfo κ))}
    (h : ∀ e ∈ map, ∀ info ∈ e.2, ¬hasResourceType type info.resources) :
    Service.allClients p callingPid type map = some [] := by
  induction map with
  | nil => rfl
  | cons e map ih =>
    obtain ⟨hfirst, hrest⟩ := List.forall_mem_cons.mp h
    have hnone : e.2.filter (hasResourceType type ·.resources) = [] :=
      List.filter_eq_nil_iff.mpr hfirst
    obtain ⟨pid, infos⟩ := e
    rw [Service.allClients]
    dsimp only at hnone ⊢
    rw [hnone, if_neg fun h => h.1 rfl, ih hrest]
    rfl

/-- Nobody holds a conflicting codec. -/
def NoConflict (s : Service κ) (resources : List MediaResource) : Prop :=
  ∀ type ∈ s.conflicts resources, ∀ pid client, ¬s.Holds type pid client

theorem collect_nil {types : List ResourceType}
    (h : ∀ type ∈ types, ∀ pid client, ¬s.Holds type pid client) :
    collect s p callingPid types [] = some [] := by
  induction types with
  | nil => rfl
  | cons type types ih =>
    obtain ⟨hfirst, hrest⟩ := List.forall_mem_cons.mp h
    have hnone : s.getAllClients_l p callingPid type [] = some [] := by
      rw [Service.getAllClients_l, allClients_nil]
      · rfl
      · rintro ⟨pid, infos⟩ hmem info hinfo htype
        exact hfirst pid info.client ⟨infos, hmem, info, hinfo, rfl, htype⟩
    rw [collect, hnone]
    exact ih hrest

/-- The third and the fourth pass are about both types of codec, as soon as one is requested. -/
theorem mem_codecs (secureCodec nonSecureCodec : Bool) :
    (type ∈ (if secureCodec then [ResourceType.kSecureCodec] else []) ++
        (if nonSecureCodec then [.kNonSecureCodec] else []) ∨
      type ∈ (if secureCodec then [ResourceType.kNonSecureCodec] else []) ++
        if nonSecureCodec then [.kSecureCodec] else []) ↔
    type ∈ if secureCodec ∨ nonSecureCodec then [ResourceType.kSecureCodec, .kNonSecureCodec]
      else [] := by
  cases secureCodec <;> cases nonSecureCodec <;> simp [or_comm]

/-- Without a conflict, the clients are found for wanted types, and none are found only if there is
none for any of these. -/
theorem reclaimClients_noConflict {resources : List MediaResource}
    (hvalid : p.isValidPid callingPid) (hconflict : NoConflict s resources) :
    ∃ clients, s.reclaimClients p callingPid resources = some clients ∧
      (∀ client ∈ clients, ∃ type ∈ wanted resources,
        s.getLowestPriorityBiggestClient_l p callingPid type = some client) ∧
      (clients = [] → ∀ type ∈ wanted resources,
        s.getLowestPriorityBiggestClient_l p callingPid type = none) := by
  rw [Service.reclaimClients, if_neg (not_not.mpr hvalid)]
  dsimp only
  rw [conflictingClients_eq, collect_nil hconflict, Option.map_some]
  refine ⟨_, rfl, fun client hclient => ?_, fun hempty type htype => ?_⟩
  · rcases mem_pass hclient with hclient | ⟨type, htype, hfound⟩
    · rcases mem_pass hclient with hclient | ⟨type, htype, hfound⟩
      · rcases mem_pass hclient with hclient | ⟨type, htype, hfound⟩
        · cases hclient
        · exact ⟨type, List.mem_append_left _ htype, hfound⟩
      · exact ⟨type, List.mem_append_right _ ((mem_codecs _ _).mp (.inl htype)), hfound⟩
    · exact ⟨type, List.mem_append_right _ ((mem_codecs _ _).mp (.inr htype)), hfound⟩
  · obtain ⟨hthird, hother⟩ := pass_nil hempty
    obtain ⟨hsecond, hsame⟩ := pass_nil hthird
    obtain ⟨-, hgraphic⟩ := pass_nil hsecond
    rcases List.mem_append.mp htype with htype | htype
    · exact hgraphic type htype
    · exact ((mem_codecs _ _).mpr htype).elim (hsame type) (hother type)

theorem askClients_nonempty (answers : Nat → Bool) {clients : List κ} (h : clients ≠ []) :
    (askClients answers 0 clients).1 ≠ [] := by
  cases clients with
  | nil => exact absurd rfl h
  | cons client clients =>
    rw [askClients]
    split <;> exact List.cons_ne_nil _ _

/-- A client is asked whenever there is one to ask if and only if for some type that is wanted the
lowest process that lists it does have some of it. Whoever is asked is the biggest client of its
type. -/
theorem reclaimResource_complete_iff [DecidableEq κ] (s : Service κ) (p : ProcessInfo)
    (callingPid : Int) (resources : List MediaResource) (answers : Nat → Bool)
    (hpids : s.RealPids) (hvalid : p.isValidPid callingPid) (hconflict : NoConflict s resources) :
    ((∃ type ∈ wanted resources, ∃ pid, s.HasSome type pid ∧ LowerPriority p callingPid pid) →
        (s.reclaimResource p callingPid resources answers).2.asked ≠ []) ∧
      (∀ client ∈ (s.reclaimResource p callingPid resources answers).2.clients,
        ∃ type ∈ wanted resources,
          s.getLowestPriorityBiggestClient_l p callingPid type = some client ∧
            s.Biggest p type client) ↔
    ((∃ type ∈ wanted resources, ∃ pid, s.HasSome type pid ∧ LowerPriority p callingPid pid) →
      ∃ type ∈ wanted resources, ∃ pid, s.Lowest p type pid ∧ s.HasSome type pid ∧
        LowerPriority p callingPid pid) := by
  obtain ⟨clients, hclients, hwanted, hnone⟩ :=
    reclaimClients_noConflict (s := s) (p := p) hvalid hconflict
  have hbest : ∀ client ∈ clients, ∃ type ∈ wanted resources,
      s.getLowestPriorityBiggestClient_l p callingPid type = some client ∧
        s.Biggest p type client := by
    intro client hclient
    obtain ⟨type, htype, hfound⟩ := hwanted client hclient
    exact ⟨type, htype, hfound, (getLowestPriorityBiggestClient_l_some hpids hfound).1⟩
  have hlist : (s.reclaimResource p callingPid resources answers).2.clients = clients ∧
      ((s.reclaimResource p callingPid resources answers).2.asked ≠ [] ↔ clients ≠ []) := by
    rw [Service.reclaimResource, hclients]
    dsimp only
    split
    next hempty => exact ⟨hempty.symm, by rw [hempty]⟩
    next hsome =>
      have hasked := askClients_nonempty answers hsome
      split
      next heq =>
        rw [heq] at hasked
        exact ⟨rfl, iff_of_true hasked hsome⟩
      next heq =>
        rw [heq] at hasked
        exact ⟨rfl, iff_of_true hasked hsome⟩
  rw [hlist.1, hlist.2]
  constructor
  · rintro ⟨hasked, -⟩ hholder
    obtain ⟨client, hclient⟩ := List.exists_mem_of_ne_nil _ (hasked hholder)
    obtain ⟨type, htype, hfound⟩ := hwanted client hclient
    exact ⟨type, htype, (getLowestPriorityBiggestClient_l_some hpids hfound).2⟩
  · intro h
    refine ⟨fun hholder hempty => ?_, hbest⟩
    obtain ⟨type, htype, pid, hlowest, hsome, hlower⟩ := h hholder
    obtain ⟨client, hfound⟩ := getLowestPriorityBiggestClient_l_isSome hpids hlowest hsome hlower
    rw [hnone hempty type htype] at hfound
    cases hfound

/-- Every process is known, and its priority is its pid. -/
def plainProcesses : ProcessInfo := ⟨fun _ => true, some⟩

/-- Two processes with graphic memory, `amount` in the one of lower priority. -/
def twoHolders (amount : Nat) : Service Char :=
  (({} : Service Char).addResource plainProcesses 4 40 'a' [⟨.kGraphicMemory, 100⟩]).addResource
    plainProcesses 5 50 'b' [⟨.kGraphicMemory, amount⟩]

theorem realPids_twoHolders (amount : Nat) : (twoHolders amount).RealPids :=
  List.forall_mem_cons.mpr ⟨(by decide : (4 : Int) ≠ -1),
    List.forall_mem_cons.mpr ⟨(by decide : (5 : Int) ≠ -1), nofun⟩⟩

theorem noConflict_twoHolders (amount : Nat) :
    NoConflict (twoHolders amount) [⟨.kGraphicMemory, 1⟩] := nofun

theorem hasSome_twoHolders (amount : Nat) : (twoHolders amount).HasSome .kGraphicMemory 4 :=
  ⟨_, List.mem_cons_self, _, List.mem_cons_self, _, List.mem_cons_self, rfl, by decide⟩

theorem reclaimResource_complete_iff_twoHolders :
    ((twoHolders 50).reclaimResource plainProcesses 1 [⟨.kGraphicMemory, 1⟩]
      fun _ => true).2.asked ≠ [] := by
  have hpids := realPids_twoHolders 50
  have hfound : (twoHolders 50).getLowestPriorityPid_l plainProcesses .kGraphicMemory =
      some (5, 5) := by decide
  have hlowest := ((getLowestPriorityPid_l_iff hpids).mp hfound).1
  have hsome : (twoHolders 50).HasSome .kGraphicMemory 5 :=
    ⟨_, List.mem_cons_of_mem _ List.mem_cons_self, _, List.mem_cons_self, _, List.mem_cons_self,
      rfl, by decide⟩
  have hlower : LowerPriority plainProcesses 1 5 := ⟨1, rfl, 5, rfl, by decide⟩
  have hcomplete := (reclaimResource_complete_iff (twoHolders 50) plainProcesses 1
    [⟨.kGraphicMemory, 1⟩] (fun _ => true) hpids rfl (noConflict_twoHolders 50)).mpr fun _ =>
      ⟨.kGraphicMemory, by decide, 5, hlowest, hsome, hlower⟩
  exact hcomplete.1 ⟨.kGraphicMemory, by decide, 5, hsome, hlower⟩

/-- A process that lists graphic memory, but has none, keeps the other one from being asked. -/
theorem empty_holder_hides :
    (twoHolders 0).RealPids ∧ plainProcesses.isValidPid 1 ∧
      NoConflict (twoHolders 0) [⟨.kGraphicMemory, 1⟩] ∧
      (∃ type ∈ wanted [⟨.kGraphicMemory, 1⟩], ∃ pid, (twoHolders 0).HasSome type pid ∧
        LowerPriority plainProcesses 1 pid) ∧
      ((twoHolders 0).reclaimResource plainProcesses 1 [⟨.kGraphicMemory, 1⟩]
        fun _ => true).2.asked = [] :=
  ⟨realPids_twoHolders 0, rfl, noConflict_twoHolders 0,
    ⟨.kGraphicMemory, by decide, 4, hasSome_twoHolders 0, 1, rfl, 4, rfl, by decide⟩, by decide⟩

end MediaFramework.ResourceManager
