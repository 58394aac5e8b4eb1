import MediaFramework.ResourceManager.Service
import Mathlib.Data.List.Induction

/-!
# Accounting for the CPU boost

Calls of the service from any threads. The lock is free while clients are asked to give their
resources back, so that other calls come in between.
-/

namespace MediaFramework.ResourceManager

/-- A call of `reclaimResource` with the clients that it has still to ask, or with the one that has
not agreed. -/
structure Call (κ : Type*) where
  clients : List κ
  failedClient : Option κ := none
  deriving DecidableEq

structure State (κ : Type*) where
  service : Service κ := {}
  calls : List (Call κ) := []

/-- `reclaimResource` begins a call, `answer` is that of the next client of a call, and
`removeFailedClient` is the end of a call after a client has not agreed. -/
inductive Event (κ : Type*)
  | addResource (p : ProcessInfo) (pid clientId : Int) (client : κ) (resources : List MediaResource)
  | removeResource (p : ProcessInfo) (pid clientId : Int) (checkValid : Bool)
  | reclaimResource (p : ProcessInfo) (callingPid : Int) (resources : List MediaResource)
  | answer (call : Nat) (agreed : Bool)
  | removeFailedClient (call : Nat)

variable {κ : Type*}

def Call.answer (call : Call κ) (agreed : Bool) : Call κ :=
  match call.clients with
  | [] => call
  | client :: clients => if agreed then ⟨clients, none⟩ else ⟨[], some client⟩

/-- The client that a call is about to remove. -/
def State.failedClient (st : State κ) (call : Nat) : Option κ :=
  st.calls[call]?.bind (·.failedClient)

def State.step [DecidableEq κ] (st : State κ) : Event κ → State κ
  | .addResource p pid clientId client resources =>
    { st with service := st.service.addResource p pid clientId client resources }
  | .removeResource p pid clientId checkValid =>
    { st with service := st.service.removeResource p pid clientId checkValid }
  | .reclaimResource p callingPid resources =>
    match st.service.reclaimClients p callingPid resources with
    | none => st
    | some clients => { st with calls := st.calls ++ [⟨clients, none⟩] }
  | .answer call agreed => { st with calls := st.calls.modify call (·.answer agreed) }
  | .removeFailedClient call =>
    match st.failedClient call with
    | none => st
    | some client =>
      { service := st.service.removeFailedClient client
        calls := st.calls.set call ⟨[], none⟩ }

def run [DecidableEq κ] (events : List (Event κ)) : State κ := events.foldl State.step {}

def boostedEntries (map : KeyedVector Int (List (ResourceInfo κ))) : Nat :=
  map.total fun infos => infos.countP (·.cpuBoost)

namespace Service

/-- How many entries have the boost. -/
def boosted (s : Service κ) : Nat := boostedEntries s.mMap

/-- The entries that `removeFailedClient` removes. -/
def failedInfos [DecidableEq κ] (s : Service κ) (failedClient : κ) : List (ResourceInfo κ) :=
  ((s.mMap.values.find? (·.any (·.client = failedClient))).getD []).filter
    (·.client = failedClient)

end Service

/-- A step after which the count is right, and which gives the boost back exactly when the last
entry with it goes. -/
structure Accounted (before after : Service κ) : Prop where
  count : after.mCpuBoostCount = after.boosted
  requests : ∃ issued, after.requests = before.requests ++ issued ∧
    issued.count false = if 0 < before.boosted ∧ after.boosted = 0 then 1 else 0

/-- A client that has not agreed is removed although an entry of it has the boost. -/
def LosesBoost [DecidableEq κ] (st : State κ) : Event κ → Prop
  | .removeFailedClient call =>
    ∃ client ∈ st.failedClient call, ∃ info ∈ st.service.failedInfos client, info.cpuBoost
  | _ => False

/-! ### What the calls do to the number of entries -/

variable {s : Service κ} {st : State κ} {p : ProcessInfo}

theorem countP_getResourceInfoForEdit (clientId : Int) (client : κ)
    (resources : List MediaResource) (boosts : Bool) (infos : List (ResourceInfo κ)) :
    (getResourceInfoForEdit clientId client (fun info =>
      { info with
        resources := info.resources ++ resources
        cpuBoost := info.cpuBoost || boosts }) infos).countP (·.cpuBoost) =
      infos.countP (·.cpuBoost) + if boosts && lacksBoost clientId infos then 1 else 0 := by
  induction infos with
  | nil => cases boosts <;> rfl
  | cons info infos ih =>
    rw [getResourceInfoForEdit, lacksBoost, List.find?_cons]
    by_cases hid : info.clientId = clientId
    · rw [if_pos hid, List.countP_cons, List.countP_cons]
      simp only [hid, decide_true, Option.map_some, Option.getD_some]
      cases info.cpuBoost <;> cases boosts <;> rfl
    · rw [if_neg hid, List.countP_cons, List.countP_cons, ih, lacksBoost]
      simp only [hid, decide_false]
      omega

theorem boostedEntries_set (map : KeyedVector Int (List (ResourceInfo κ))) (pid : Int)
    (infos : List (ResourceInfo κ)) :
    boostedEntries (map.set pid infos) + ((map.find? pid).getD []).countP (·.cpuBoost) =
      boostedEntries map + infos.countP (·.cpuBoost) := by
  have htotal := map.total_set (fun infos => infos.countP (·.cpuBoost)) pid infos
  rw [boostedEntries, boostedEntries, ← htotal]
  cases map.find? pid <;> rfl

/-- A step that takes no entry with the boost away does not give it back. -/
theorem Accounted.of_le {before after : Service κ} {issued : List Bool}
    (hcount : after.mCpuBoostCount = after.boosted)
    (hrequests : after.requests = before.requests ++ issued) (hissued : issued.count false = 0)
    (hle : before.boosted ≤ after.boosted) : Accounted before after := by
  refine ⟨hcount, issued, hrequests, ?_⟩
  rw [hissued, if_neg]
  omega

theorem Accounted.refl (h : s.mCpuBoostCount = s.boosted) : Accounted s s :=
  .of_le h (List.append_nil _).symm rfl le_rfl

theorem addResource_accounted (pid clientId : Int) (client : κ) (resources : List MediaResource)
    (h : s.mCpuBoostCount = s.boosted) :
    Accounted s (s.addResource p pid clientId client resources) := by
  rw [Service.addResource]
  split
  · exact .refl h
  · have hinfos := countP_getResourceInfoForEdit clientId client resources
      (hasResourceType .kCpuBoost resources) ((s.mMap.find? pid).getD [])
    have hset := boostedEntries_set s.mMap pid (getResourceInfoForEdit clientId client (fun info =>
      { info with
        resources := info.resources ++ resources
        cpuBoost := info.cpuBoost || hasResourceType .kCpuBoost resources })
      ((s.mMap.find? pid).getD []))
    rw [hinfos] at hset
    rw [Service.boosted] at h
    dsimp only
    split
    · next hboost =>
      rw [if_pos hboost] at hset
      refine .of_le ?_ rfl rfl ?_
      · simp only [h, Service.boosted]
        omega
      · simp only [Service.boosted]
        omega
    · next hboost =>
      rw [if_neg hboost] at hset
      refine .of_le ?_ (List.append_nil _).symm rfl ?_
      · simp only [h, Service.boosted]
        omega
      · simp only [Service.boosted]
        omega

theorem countP_eraseP {clientId : Int} {infos : List (ResourceInfo κ)} {info : ResourceInfo κ}
    (h : infos.find? (·.clientId = clientId) = some info) :
    (infos.eraseP (·.clientId = clientId)).countP (·.cpuBoost) + (if info.cpuBoost then 1 else 0) =
      infos.countP (·.cpuBoost) := by
  induction infos with
  | nil => cases h
  | cons i infos ih =>
    rw [List.find?_cons] at h
    by_cases hid : i.clientId = clientId
    · simp only [hid, decide_true, Option.some.injEq] at h
      rw [List.eraseP_cons_of_pos (by simpa using hid), h, List.countP_cons]
    · simp only [hid, decide_false] at h
      have hih := ih h
      rw [List.eraseP_cons_of_neg (by simpa using hid), List.countP_cons, List.countP_cons]
      omega

theorem removeResource_accounted (pid clientId : Int) (checkValid : Bool)
    (h : s.mCpuBoostCount = s.boosted) :
    Accounted s (s.removeResource p pid clientId checkValid) := by
  rw [Service.removeResource]
  split
  · exact .refl h
  · split
    · exact .refl h
    · next infos hinfos =>
      split
      · exact .refl h
      · next info hinfo =>
        have hset := boostedEntries_set s.mMap pid (infos.eraseP (·.clientId = clientId))
        have herase := countP_eraseP hinfo
        rw [hinfos, Option.getD_some] at hset
        rw [Service.boosted] at h
        dsimp only
        split
        · next hboost =>
          rw [if_pos hboost] at herase
          rw [Service.releaseBoost, if_pos (by omega)]
          constructor
          · simp only [Service.boosted]
            omega
          · by_cases hlast : boostedEntries s.mMap = 1
            · refine ⟨[false], ?_, ?_⟩
              · exact if_pos (by omega)
              · rw [if_pos]
                · rfl
                · simp only [Service.boosted]
                  omega
            · refine ⟨[], ?_, ?_⟩
              · rw [List.append_nil]
                exact if_neg (by omega)
              · rw [if_neg]
                · rfl
                · simp only [Service.boosted]
                  omega
        · next hboost =>
          rw [if_neg hboost] at herase
          refine .of_le ?_ (List.append_nil _).symm rfl ?_
          · simp only [Service.boosted]
            omega
          · simp only [Service.boosted]
            omega

variable [DecidableEq κ]

theorem removeFailedClient_boosted (s : Service κ) (client : κ) :
    (s.removeFailedClient client).boosted + (s.failedInfos client).countP (·.cpuBoost) =
      s.boosted := by
  have htotal := s.mMap.total_modifyFirst (fun infos => infos.countP (·.cpuBoost))
    (·.any (·.client = client)) (·.filter (·.client ≠ client))
  rw [Service.boosted, Service.boosted, Service.failedInfos]
  show boostedEntries (s.mMap.modifyFirst _ _) + _ = boostedEntries s.mMap
  rw [boostedEntries, boostedEntries]
  cases hfirst : s.mMap.values.find? (·.any (·.client = client)) with
  | none =>
    rw [hfirst] at htotal
    exact htotal
  | some infos =>
    have hsplit : infos.countP (·.cpuBoost) =
        (infos.filter (·.client = client)).countP (·.cpuBoost) +
          (infos.filter (·.client ≠ client)).countP (·.cpuBoost) := by
      have hperm := List.filter_append_perm (fun info : ResourceInfo κ => info.client = client) infos
      have hcount := hperm.countP_eq (·.cpuBoost)
      rw [List.countP_append] at hcount
      simpa using hcount.symm
    rw [hfirst] at htotal
    simp only [Option.map_some, Option.getD_some] at htotal ⊢
    omega

/-! ### Runs -/

theorem step_accounted (e : Event κ) (h : st.service.mCpuBoostCount = st.service.boosted)
    (hkept : ¬LosesBoost st e) : Accounted st.service (st.step e).service := by
  cases e with
  | addResource p pid clientId client resources =>
    exact addResource_accounted pid clientId client resources h
  | removeResource p pid clientId checkValid => exact removeResource_accounted pid clientId checkValid h
  | reclaimResource p callingPid resources =>
    rw [State.step]
    split <;> exact .refl h
  | answer call agreed => exact .refl h
  | removeFailedClient call =>
    rw [State.step]
    cases hclient : st.failedClient call with
    | none => exact .refl h
    | some client =>
      have hboosted := removeFailedClient_boosted st.service client
      have hnone : (st.service.failedInfos client).countP (·.cpuBoost) = 0 := by
        apply List.countP_eq_zero.mpr
        intro info hinfo hboost
        exact hkept ⟨client, hclient, info, hinfo, hboost⟩
      have hsame : (st.service.removeFailedClient client).boosted = st.service.boosted := by omega
      exact .of_le (h.trans (congrArg _ hsame.symm)) (List.append_nil _).symm rfl (le_of_eq hsame.symm)

theorem not_accounted (e : Event κ) (h : st.service.mCpuBoostCount = st.service.boosted)
    (hloses : LosesBoost st e) : ¬Accounted st.service (st.step e).service := by
  intro haccounted
  cases e with
  | removeFailedClient call =>
    obtain ⟨client, hclient, info, hinfo, hboost⟩ := hloses
    have hcount := haccounted.count
    have hboosted := removeFailedClient_boosted st.service client
    have hpos : 0 < (st.service.failedInfos client).countP (·.cpuBoost) :=
      List.countP_pos_iff.mpr ⟨info, hinfo, hboost⟩
    rw [State.step, hclient] at hcount
    have hcount : st.service.mCpuBoostCount = (st.service.removeFailedClient client).boosted :=
      hcount
    omega
  | _ => exact hloses

theorem run_append (events : List (Event κ)) (e : Event κ) :
    run (events ++ [e]) = (run events).step e := by
  rw [run, List.foldl_append]
  rfl

/-- A run accounts for the boost in every step exactly when no client that does not agree takes
an entry with the boost with it. -/
theorem accounted_iff (events : List (Event κ)) :
    (∀ pre e, pre ++ [e] <+: events → Accounted (run pre).service (run (pre ++ [e])).service) ↔
      ∀ pre e, pre ++ [e] <+: events → ¬LosesBoost (run pre) e := by
  have hinit : (run ([] : List (Event κ))).service.mCpuBoostCount =
      (run ([] : List (Event κ))).service.boosted := rfl
  constructor
  · intro haccounted pre e hpre hloses
    have hcount : (run pre).service.mCpuBoostCount = (run pre).service.boosted := by
      induction pre using List.reverseRecOn with
      | nil => exact hinit
      | append_singleton pre e' _ =>
        exact (haccounted pre e' ((List.prefix_append _ _).trans hpre)).count
    have hlast := haccounted pre e hpre
    rw [run_append] at hlast
    exact not_accounted e hcount hloses hlast
  · intro hkept pre
    induction pre using List.reverseRecOn with
    | nil =>
      intro e hpre
      rw [run_append]
      exact step_accounted e hinit (hkept [] e hpre)
    | append_singleton pre e' ih =>
      intro e hpre
      rw [run_append _ e]
      exact step_accounted e (ih e' ((List.prefix_append _ _).trans hpre)).count (hkept _ e hpre)

/-- A client with the boost that does not agree is removed, and the boost stays. -/
theorem refused_reclaim_keeps_boost :
    let p : ProcessInfo := ⟨fun _ => true, fun pid => some pid⟩
    let st := run [.addResource p 2 10 'a' [⟨.kSecureCodec, 1⟩, ⟨.kCpuBoost, 1⟩],
      .reclaimResource p 1 [⟨.kSecureCodec, 1⟩], .answer 0 false, .removeFailedClient 0]
    st.service.mCpuBoostCount = 1 ∧ st.service.boosted = 0 ∧ st.service.requests = [true] := by
  decide

end MediaFramework.ResourceManager
