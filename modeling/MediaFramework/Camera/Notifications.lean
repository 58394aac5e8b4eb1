import MediaFramework.Camera.ClientRuns

/-!
# What a listener is told

A listener that is there from the start can keep the list of active clients up to date from
the notifications alone, as long as no addition evicts more than the most recent client.
-/

namespace MediaFramework.Camera

open ClientDescriptor

variable {K : Type*} [DecidableEq K]

namespace ClientManager

variable {m : ClientManager K} {client : ClientDescriptor K} {mMaxCost : Int}

/-! ### The observers -/

def getAll (m : ClientManager K) : List (ClientDescriptor K) := m.mClients

/-- The vector is made with `mClients.size()` default keys before the keys are appended. -/
def getAllKeys [Inhabited K] (m : ClientManager K) : List K :=
  List.replicate m.mClients.length default ++ m.mClients.map (·.mKey)

omit [DecidableEq K] in
theorem getAllKeys_eq_iff [Inhabited K] (m : ClientManager K) :
    m.getAllKeys = m.getAll.map (·.mKey) ↔ m.mClients = [] := by
  simp [getAllKeys, getAll]

/-! ### Replaying notifications -/

/-- Keep a list of addresses: a client that enters must be new to it, and one that leaves
must be on it. -/
def replayFrom (refs : List Nat) : List (Notification K) → Option (List Nat)
  | [] => some refs
  | .onClientAdded d :: ns => if d.ref ∈ refs then none else replayFrom (refs ++ [d.ref]) ns
  | .onClientRemoved d :: ns => if d.ref ∈ refs then replayFrom (refs.erase d.ref) ns else none

def replay (ns : List (Notification K)) : Option (List Nat) := replayFrom [] ns

omit [DecidableEq K] in
theorem replayFrom_append (refs : List Nat) (ns ns' : List (Notification K)) :
    replayFrom refs (ns ++ ns') = (replayFrom refs ns).bind fun refs => replayFrom refs ns' := by
  induction ns generalizing refs with
  | nil => rfl
  | cons n ns ih =>
    cases n with
    | onClientAdded d =>
      rw [List.cons_append, replayFrom, replayFrom]
      split
      · rfl
      · exact ih _
    | onClientRemoved d =>
      rw [List.cons_append, replayFrom, replayFrom]
      split
      · exact ih _
      · rfl

omit [DecidableEq K] in
/-- Reporting the clients that match one by one leaves the others. -/
theorem replayFrom_removed (p : ClientDescriptor K → Bool) (clients : List (ClientDescriptor K))
    (ahead : List Nat) (h : (ahead ++ clients.map (·.ref)).Nodup) :
    replayFrom (ahead ++ clients.map (·.ref)) ((clients.filter p).map .onClientRemoved) =
      some (ahead ++ (clients.filter fun i => !p i).map (·.ref)) := by
  induction clients generalizing ahead with
  | nil => rfl
  | cons i clients ih =>
    by_cases hp : p i
    · have hi : i.ref ∉ ahead := by
        intro hi
        exact (List.nodup_append.mp h).2.2 _ hi _ List.mem_cons_self rfl
      rw [List.filter_cons_of_pos hp, List.map_cons, List.map_cons, replayFrom, if_pos (by simp),
        List.erase_append_right _ hi, List.erase_cons_head, List.filter_cons_of_neg (by simp [hp])]
      exact ih ahead (h.sublist ((List.sublist_cons_self _ _).append_left _))
    · rw [List.filter_cons_of_neg hp, List.filter_cons_of_pos (by simp [hp])]
      have hsplit : ahead ++ (i :: clients).map (·.ref) =
          (ahead ++ [i.ref]) ++ clients.map (·.ref) := by simp
      rw [hsplit] at h ⊢
      rw [ih _ h]
      simp

/-! ### Runs -/

/-- A pointer to an active client is that client. -/
def Identified (m : ClientManager K) : Call K → Prop
  | .addAndEvict (some client) _ => ∀ d ∈ m.mClients, d.ref = client.ref → d = client
  | _ => True

/-- Nobody would be evicted, or the incoming client itself before anybody else, or just the
most recent client. -/
def Reported (m : ClientManager K) : Call K → Prop
  | .addAndEvict (some client) _ =>
    m.wouldEvictLocked client = [] ∨
      (∃ first ∈ (m.wouldEvictLocked client).head?, first.ref = client.ref) ∨
      ∃ last ∈ m.mClients.getLast?, m.wouldEvictLocked client = [last]
  | _ => True

/-- The notifications lead to the list of active clients. -/
structure Replayed (m : ClientManager K) : Prop where
  compatible : m.Compatible
  refs : (m.mClients.map (·.ref)).Nodup
  listener : ∃ ns, m.mListener = some ns ∧ replay ns = some (m.mClients.map (·.ref))

omit [DecidableEq K] in
theorem replay_append {ns ns' : List (Notification K)} {refs refs' : List Nat}
    (h : replay ns = some refs) (h' : replayFrom refs ns' = some refs') :
    replay (ns ++ ns') = some refs' := by
  rw [replay, replayFrom_append, ← replay, h]
  exact h'

theorem Replayed.removeIf (h : m.Replayed) (p : ClientDescriptor K → Bool) :
    (m.removeIf p).Replayed := by
  obtain ⟨ns, hns, hreplay⟩ := h.listener
  have hsub := List.filter_sublist (p := fun i => !p i) (l := m.mClients)
  refine ⟨h.compatible.sublist hsub, h.refs.sublist (hsub.map _),
    ns ++ (m.mClients.filter p).map .onClientRemoved, ?_, ?_⟩
  · rw [ClientManager.removeIf, hns]
    rfl
  · exact replay_append hreplay (replayFrom_removed p m.mClients [] h.refs)

theorem Replayed.removeAll (h : m.Replayed) : m.removeAll.Replayed := by
  have hall := h.removeIf fun _ => true
  have heq : m.removeIf (fun _ => true) = m.removeAll := by
    simp [ClientManager.removeIf, ClientManager.removeAll]
  rwa [heq] at hall

theorem Replayed.updatePriorities (h : m.Replayed)
    (ownerPriorityList : Int → Option ClientPriority) :
    (m.updatePriorities ownerPriorityList).Replayed := by
  have hrefs : (m.updatePriorities ownerPriorityList).mClients.map (·.ref) =
      m.mClients.map (·.ref) := by
    simp only [ClientManager.updatePriorities, List.map_map]
    refine List.map_congr_left fun i _ => ?_
    simp only [Function.comp]
    split <;> rfl
  refine ⟨h.compatible.updatePriorities _, ?_, ?_⟩
  · rw [hrefs]
    exact h.refs
  · rw [hrefs]
    exact h.listener

/-- The incoming client is appended to clients that do not conflict with it. -/
theorem Replayed.append {kept : List (ClientDescriptor K)} {ns : List (Notification K)}
    (client : ClientDescriptor K)
    (hrefs : (kept.map (·.ref)).Nodup) (hreplay : replay ns = some (kept.map (·.ref)))
    (hcomp : ∀ d ∈ kept, ¬Conflicting d client)
    (hclient : ∀ d ∈ kept, d.ref = client.ref → d = client) :
    ((kept ++ [client]).map (·.ref)).Nodup ∧
      replay (ns ++ [.onClientAdded client]) = some ((kept ++ [client]).map (·.ref)) := by
  have hnew : client.ref ∉ kept.map (·.ref) := by
    rintro hmem
    obtain ⟨d, hd, href⟩ := List.mem_map.mp hmem
    obtain rfl := hclient d hd href
    exact hcomp d hd (.inl rfl)
  rw [List.map_append, List.map_singleton]
  refine ⟨List.nodup_append.mpr ⟨hrefs, List.nodup_singleton _, ?_⟩, replay_append hreplay ?_⟩
  · rintro r hr _ hr' rfl
    rw [List.mem_singleton.mp hr'] at hr
    exact hnew hr
  · rw [replayFrom, if_neg hnew]
    rfl

theorem removeEvicted_last (stray : Nat → K) {front : List (ClientDescriptor K)}
    {last : ClientDescriptor K} (h : ∀ d ∈ front, d.mKey ≠ last.mKey) :
    removeEvicted stray [last] (front ++ [last]) = front := by
  induction front with
  | nil => rw [List.nil_append, removeEvicted, if_pos rfl, removeEvicted]
  | cons d front ih =>
    obtain ⟨hd, hfront⟩ := List.forall_mem_cons.mp h
    rw [List.cons_append, removeEvicted, if_neg hd, ih hfront]

omit [DecidableEq K] in
/-- The most recent client leaves. -/
theorem replayFrom_removed_last {front : List (ClientDescriptor K)} {last : ClientDescriptor K}
    (h : ((front ++ [last]).map (·.ref)).Nodup) :
    replayFrom ((front ++ [last]).map (·.ref)) [.onClientRemoved last] =
      some (front.map (·.ref)) := by
  rw [List.map_append, List.map_singleton] at h ⊢
  have hlast : last.ref ∉ front.map (·.ref) := by
    intro hmem
    exact (List.nodup_append.mp h).2.2 _ hmem _ (List.mem_singleton_self _) rfl
  rw [replayFrom, if_pos (by simp), List.erase_append_right _ hlast, List.erase_cons_head,
    List.append_nil, replayFrom]

theorem addAndEvict_of_evicted (stray : Nat → K) {first : ClientDescriptor K}
    {rest : List (ClientDescriptor K)} (hev : m.wouldEvictLocked client = first :: rest)
    (href : first.ref ≠ client.ref) :
    (m.addAndEvict stray client).1 =
      { mMaxCost := m.mMaxCost
        mClients := removeEvicted stray (first :: rest) m.mClients ++ [client]
        mListener := m.mListener.map (· ++ [.onClientRemoved first, .onClientAdded client]) } := by
  simp only [ClientManager.addAndEvict, hev, if_neg href, notify, Option.map_map]
  congr 2
  funext ns
  simp

theorem Replayed.addAndEvict (h : m.Replayed) (stray : Nat → K)
    (hclient : ∀ d ∈ m.mClients, d.ref = client.ref → d = client)
    (hone : m.Reported (.addAndEvict (some client) stray)) :
    (m.addAndEvict stray client).1.Replayed := by
  have hcompatible := h.compatible.addAndEvict stray client
  obtain ⟨ns, hns, hreplay⟩ := h.listener
  have hspec := wouldEvictLocked_spec m client
  simp only [Reported] at hone
  cases hev : m.wouldEvictLocked client with
  | nil =>
    rw [hev] at hspec
    obtain ⟨kept, hadm, -⟩ := hspec.resolve_left (List.cons_ne_nil client []).symm
    obtain rfl := hadm.split.kept_eq
    obtain ⟨hrefs, hadded⟩ := Replayed.append client h.refs hreplay hadm.compatible hclient
    simp only [ClientManager.addAndEvict, hev] at hcompatible ⊢
    refine ⟨hcompatible, hrefs, _, ?_, hadded⟩
    simp only [notify, hns, Option.map_some]
  | cons first rest =>
    by_cases href : first.ref = client.ref
    · simp only [ClientManager.addAndEvict, hev, if_pos href]
      exact h
    rw [addAndEvict_of_evicted stray hev href] at hcompatible ⊢
    rw [hev] at hone hspec
    -- what is left is the most recent client alone, which the sweep meets last
    obtain ⟨last, hlast, hrest⟩ : ∃ last ∈ m.mClients.getLast?, first :: rest = [last] := by
      obtain hnil | ⟨_, ⟨⟩, hself⟩ | hlast := hone
      · cases hnil
      · exact absurd hself href
      · exact hlast
    cases hrest
    obtain ⟨front, hclients⟩ := List.getLast?_eq_some_iff.mp hlast
    obtain ⟨kept, hadm, -⟩ := hspec.resolve_left fun hself => href (by cases hself; rfl)
    have hkeys := h.compatible.keys
    have hnodup := h.refs
    rw [hclients] at hkeys hnodup hreplay
    have hkey : ∀ d ∈ front, d.mKey ≠ first.mKey := fun d hd =>
      (List.pairwise_append.mp hkeys).2.2 d hd first (List.mem_singleton_self first)
    have hkept : ∀ d ∈ front, ¬Conflicting d client := by
      intro d hd
      have hmem : d ∈ kept ++ [first] := by
        rw [hadm.split.perm.mem_iff, hclients]
        exact List.mem_append_left _ hd
      obtain hmem | hmem := List.mem_append.mp hmem
      · exact hadm.compatible d hmem
      · exact absurd (congrArg _ (List.mem_singleton.mp hmem)) (hkey d hd)
    have hfront : (front.map (·.ref)).Nodup :=
      hnodup.sublist ((List.sublist_append_left _ _).map _)
    have hremoved : replay (ns ++ [.onClientRemoved first]) = some (front.map (·.ref)) :=
      replay_append hreplay (replayFrom_removed_last hnodup)
    obtain ⟨hrefs, hadded⟩ := Replayed.append client hfront hremoved hkept
      fun d hd => hclient d (by rw [hclients]; exact List.mem_append_left _ hd)
    have hswept : removeEvicted stray [first] m.mClients = front := by
      rw [hclients]
      exact removeEvicted_last stray hkey
    rw [hswept] at hcompatible ⊢
    refine ⟨hcompatible, hrefs, _, ?_, hadded⟩
    simp only [hns, Option.map_some, List.append_assoc, List.singleton_append]

theorem Replayed.step (h : m.Replayed) (call : Call K) (hident : m.Identified call)
    (hone : m.Reported call) : (m.step call).Replayed := by
  cases call with
  | addAndEvict client stray =>
    cases client with
    | none => exact h
    | some client => exact h.addAndEvict stray hident hone
  | updatePriorities ownerPriorityList => exact h.updatePriorities ownerPriorityList
  | removeKey key => exact h.removeIf _
  | remove ref => exact h.removeIf _
  | removeAll => exact h.removeAll

instance (m : ClientManager K) (call : Call K) : Decidable (m.Identified call) :=
  match call with
  | .addAndEvict (some client) _ =>
    inferInstanceAs (Decidable (∀ d ∈ m.mClients, d.ref = client.ref → d = client))
  | .addAndEvict none _ => inferInstanceAs (Decidable True)
  | .updatePriorities _ => inferInstanceAs (Decidable True)
  | .removeKey _ => inferInstanceAs (Decidable True)
  | .remove _ => inferInstanceAs (Decidable True)
  | .removeAll => inferInstanceAs (Decidable True)

instance (m : ClientManager K) (call : Call K) : Decidable (m.Reported call) :=
  match call with
  | .addAndEvict (some client) _ =>
    inferInstanceAs (Decidable (m.wouldEvictLocked client = [] ∨
      (∃ first ∈ (m.wouldEvictLocked client).head?, first.ref = client.ref) ∨
      ∃ last ∈ m.mClients.getLast?, m.wouldEvictLocked client = [last]))
  | .addAndEvict none _ => inferInstanceAs (Decidable True)
  | .updatePriorities _ => inferInstanceAs (Decidable True)
  | .removeKey _ => inferInstanceAs (Decidable True)
  | .remove _ => inferInstanceAs (Decidable True)
  | .removeAll => inferInstanceAs (Decidable True)

/-- A listener that is there from the start can rebuild the list of active clients, as long as
no addition evicts anybody but the most recent client. The keys are never listed right while
somebody is active. -/
theorem listener_rebuilds_clients [Inhabited K]
    (h : (machine mMaxCost (some [])).Run (fun m call => m.Identified call ∧ m.Reported call) m) :
    (∃ ns, m.mListener = some ns ∧ replay ns = some (m.getAll.map (·.ref))) ∧
      (m.getAllKeys = m.getAll.map (·.mKey) ↔ m.mClients = []) := by
  have hm : m.Replayed := by
    refine h.invariant ⟨.nil, .nil, [], rfl, rfl⟩ ?_
    rintro m call _ hm ⟨hident, hone⟩ hs
    cases hs
    exact hm.step call hident hone
  exact ⟨hm.listener, getAllKeys_eq_iff m⟩

theorem listener_rebuilds_clients_fourCalls :
    ∃ m : ClientManager Nat,
      (machine DEFAULT_MAX_COST (some [])).Run
        (fun m call => m.Identified call ∧ m.Reported call) m ∧
      m.mClients.map (·.ref) = [0, 2] ∧
      (∃ ns, m.mListener = some ns ∧ replay ns = some (m.getAll.map (·.ref))) ∧
      (m.getAllKeys = m.getAll.map (·.mKey) ↔ m.mClients = []) := by
  have hr := Machine.Run.of_exec (machine (K := Nat) DEFAULT_MAX_COST (some []))
    (fun m call => m.Identified call ∧ m.Reported call)
    [.addAndEvict (some (aClient 0 1 10 {} 5 7)) id, .addAndEvict (some (aClient 1 2 10 {} 5 7)) id,
      .updatePriorities fun _ => some ⟨9, 0, false⟩, .addAndEvict (some (aClient 2 3 10 {2} 8 7)) id]
    (by decide)
  exact ⟨_, hr, by decide, listener_rebuilds_clients hr⟩

/-- Clients 0 and 1 make room for client 2, but the listener only hears of the first; and
client 0 is listed with two keys. -/
theorem listener_misses_second_eviction :
    (∃ m : ClientManager Nat,
      (machine DEFAULT_MAX_COST (some [])).Run (fun m call => m.Identified call) m ∧
      m.getAll.map (·.ref) = [2] ∧
      ∀ ns, m.mListener = some ns → replay ns = some [1, 2]) ∧
    ∃ m : ClientManager Nat,
      (machine DEFAULT_MAX_COST (some [])).Run (fun m call => m.Identified call) m ∧
      m.getAll.map (·.mKey) = [1] ∧ m.getAllKeys = [0, 1] := by
  have hr := Machine.Run.of_exec (machine (K := Nat) DEFAULT_MAX_COST (some []))
    (fun m call => m.Identified call)
    [.addAndEvict (some (aClient 0 1 10 {} 5 7)) id, .addAndEvict (some (aClient 1 2 10 {} 5 7)) id,
      .addAndEvict (some (aClient 2 3 10 {1, 2} 5 7)) id]
    (by decide)
  have hr' := Machine.Run.of_exec (machine (K := Nat) DEFAULT_MAX_COST (some []))
    (fun m call => m.Identified call) [.addAndEvict (some (aClient 0 1 10 {} 5 7)) id] (by decide)
  refine ⟨⟨_, hr, by decide, ?_⟩, _, hr', by decide, by decide⟩
  intro ns hns
  cases hns
  decide

end ClientManager

end MediaFramework.Camera
