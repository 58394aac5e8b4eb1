import MediaFramework.Camera.Goers
import Mathlib.Data.Finset.Insert

/-!
# Runs of the client manager

Active clients never conflict, whatever the calls; and when an incoming client is admitted
as the class promises.
-/

namespace MediaFramework.Camera

open ClientDescriptor

variable {K : Type*} [DecidableEq K]

namespace ClientManager

variable {m : ClientManager K} {client : ClientDescriptor K} {mMaxCost : Int}
  {mListener : Option (List (Notification K))}

/-! ### No two active clients conflict -/

/-- No two active clients conflict. In particular their keys differ. -/
def Compatible (m : ClientManager K) : Prop := m.mClients.Pairwise fun a b => ¬Conflicting a b

theorem Compatible.keys (h : m.Compatible) : m.mClients.Pairwise fun a b => a.mKey ≠ b.mKey :=
  h.imp fun hc hk => hc (.inl hk)

theorem addAndEvict_snd (m : ClientManager K) (stray : Nat → K) (client : ClientDescriptor K) :
    (m.addAndEvict stray client).2 = m.wouldEvictLocked client := by
  simp only [addAndEvict]
  split
  · rfl
  · split <;> rfl

theorem Compatible.append {kept : List (ClientDescriptor K)} (h : m.Compatible)
    (hs : kept.Sublist m.mClients) (hc : ∀ d ∈ kept, ¬Conflicting d client) :
    (kept ++ [client]).Pairwise fun a b => ¬Conflicting a b := by
  refine List.pairwise_append.mpr ⟨h.sublist hs, List.pairwise_singleton _ _, fun a ha b hb => ?_⟩
  rw [List.mem_singleton.mp hb]
  exact hc a ha

theorem Compatible.addAndEvict (h : m.Compatible) (stray : Nat → K)
    (client : ClientDescriptor K) : (m.addAndEvict stray client).1.Compatible := by
  rw [Compatible]
  obtain ⟨_, _, -, -, hsame⟩ | ⟨-, hclients, kept, hadm, -⟩ := addAndEvict_cases m stray client
  · rw [hsame]
    exact h
  · have hsub := swept_sublist hadm.split h.keys stray
    rw [hclients]
    refine h.append (hsub.trans hadm.split.sublist_kept) ?_
    intro d hd
    exact hadm.compatible d (hsub.subset hd)

theorem Compatible.updatePriorities (h : m.Compatible)
    (ownerPriorityList : Int → Option ClientPriority) :
    (m.updatePriorities ownerPriorityList).Compatible := by
  refine List.pairwise_map.mpr (h.imp ?_)
  intro a b hab
  -- keys and conflicts do not depend on the priority
  split <;> split <;> exact hab

theorem Compatible.step (h : m.Compatible) (call : Call K) : (m.step call).Compatible := by
  cases call with
  | addAndEvict client stray =>
    cases client with
    | none => exact h
    | some client => exact h.addAndEvict stray client
  | updatePriorities ownerPriorityList => exact h.updatePriorities ownerPriorityList
  | removeKey key => exact h.sublist List.filter_sublist
  | remove ref => exact h.sublist List.filter_sublist
  | removeAll => exact .nil

theorem Compatible.of_run {ok : ClientManager K → Call K → Prop}
    (h : (machine mMaxCost mListener).Run ok m) : m.Compatible := by
  refine h.invariant .nil ?_
  rintro m call _ hm - hs
  cases hs
  exact hm.step call

/-- Whatever the calls, and whatever the sweeps read past the end of their lists: the active
clients have different keys and none of them conflict. -/
theorem active_clients_compatible
    (h : (machine mMaxCost mListener).Run (fun _ _ => True) m) :
    (m.mClients.map (·.mKey)).Nodup ∧ m.mClients.Pairwise fun a b => ¬Conflicting a b := by
  have hm := Compatible.of_run h
  exact ⟨List.pairwise_map.mpr hm.keys, hm⟩

/-- A client with the given address, key, cost, conflicts and score, owned by `owner`. -/
def aClient (ref key cost : Nat) (conflicts : Finset Nat) (score owner : Int) : ClientDescriptor Nat :=
  ⟨ref, key, cost, conflicts, ⟨score, 0, false⟩, owner⟩

theorem active_clients_compatible_threeCalls :
    ∃ m : ClientManager Nat, (machine DEFAULT_MAX_COST none).Run (fun _ _ => True) m ∧
      m.mClients.map (·.mKey) = [2, 3] ∧ (m.mClients.map (·.mKey)).Nodup ∧
      m.mClients.Pairwise fun a b => ¬Conflicting a b := by
  have hr := Machine.Run.of_exec (machine (K := Nat) DEFAULT_MAX_COST none) (fun _ _ => True)
    [.addAndEvict (some (aClient 0 1 10 {} 5 7)) id, .addAndEvict (some (aClient 1 2 10 {} 5 7)) id,
      .updatePriorities fun _ => some ⟨9, 0, false⟩, .addAndEvict (some (aClient 2 3 10 {1} 8 7)) id]
    (by decide)
  exact ⟨_, hr, by decide, active_clients_compatible hr⟩

/-! ### Admission -/

/-- A pointer to an active client is that client, and costs are not negative. -/
def Permitted (m : ClientManager K) : Call K → Prop
  | .addAndEvict (some client) _ =>
    0 ≤ client.mCost ∧ ∀ d ∈ m.mClients, d.ref = client.ref → d = client
  | _ => True

instance (m : ClientManager K) (call : Call K) : Decidable (m.Permitted call) :=
  match call with
  | .addAndEvict (some _) _ => inferInstanceAs (Decidable (_ ∧ _))
  | .addAndEvict none _ => inferInstanceAs (Decidable True)
  | .updatePriorities _ => inferInstanceAs (Decidable True)
  | .removeKey _ => inferInstanceAs (Decidable True)
  | .remove _ => inferInstanceAs (Decidable True)
  | .removeAll => inferInstanceAs (Decidable True)

/-- What the class promises for an incoming client: it is refused and nothing changes; or it
is appended after exactly the returned clients are removed, who had to go, and the rest is
affordable. -/
def Admitted (m : ClientManager K) (client : ClientDescriptor K)
    (res : ClientManager K × List (ClientDescriptor K)) : Prop :=
  (res.2 = [client] ∧ res.1.mClients = m.mClients) ∨
    ∃ kept, res.1.mClients = kept ++ [client] ∧ Admission m client res.2 kept ∧
      Affordable m client kept

/-- The sweep stays within the eviction list: nobody goes, the client is refused, or the most
recent client goes and the first one to go is not the incoming client itself. -/
def SweepInBounds (m : ClientManager K) (client : ClientDescriptor K) : Prop :=
  m.wouldEvictLocked client = [] ∨ m.wouldEvictLocked client = [client] ∨
    (∀ first ∈ (m.wouldEvictLocked client).head?, first.ref ≠ client.ref) ∧
      (m.wouldEvictLocked client).getLast? = m.mClients.getLast?

/-- The client is refused; or nobody has to go except perhaps the client itself; or the most
recent client has to go and so does, if the incoming one is active already, somebody ahead of
it. -/
def SafeToAdd (m : ClientManager K) (client : ClientDescriptor K) : Prop :=
  m.Refused client ∨
    (∀ j < m.mClients.length, m.Goes client j → m.mClients[j]? = some client) ∨
    m.Goes client (m.mClients.length - 1) ∧
      ∀ j < m.mClients.length, m.mClients[j]? = some client → ∃ j' < j, m.Goes client j'

instance (m : ClientManager K) (client : ClientDescriptor K) : Decidable (m.SafeToAdd client) :=
  inferInstanceAs (Decidable (_ ∨ _ ∨ _ ∧ _))

theorem sweepInBounds_iff (hkeys : m.mClients.Pairwise fun a b => a.mKey ≠ b.mKey)
    (hcost : ∀ d ∈ m.mClients, 0 ≤ d.mCost)
    (hclient : ∀ d ∈ m.mClients, d.ref = client.ref → d = client) :
    m.SweepInBounds client ↔ m.SafeToAdd client := by
  have hnodup : m.mClients.Nodup := hkeys.imp fun hne heq => hne (congrArg _ heq)
  by_cases hr : m.Refused client
  · exact ⟨fun _ => .inl hr, fun _ => .inr (.inl (wouldEvictLocked_of_refused hcost hr))⟩
  rw [SweepInBounds, SafeToAdd, or_iff_right hr, ← or_assoc,
    wouldEvictLocked_eq_self_iff hcost hnodup hr]
  refine or_congr_right' fun hself => ?_
  have hne : m.wouldEvictLocked client ≠ [] := fun hnil =>
    hself ((wouldEvictLocked_eq_self_iff hcost hnodup hr).mp (.inl hnil))
  rw [getLast?_wouldEvictLocked_iff hcost hnodup hr hne, and_comm]
  refine and_congr_right fun _ => ⟨fun hfirst j _ hi => ?_, fun hahead first hf href => ?_⟩
  · by_contra hnone
    simp only [not_exists, not_and] at hnone
    exact hfirst client ((head?_wouldEvictLocked_iff hcost hnodup hr hi).mpr hnone) rfl
  · obtain ⟨j, hj, hgo, hi⟩ := (mem_wouldEvictLocked hcost hr).mp (List.mem_of_mem_head? hf)
    obtain rfl := hclient first (List.mem_of_getElem? hi) href
    obtain ⟨j', hj', hgo'⟩ := hahead j hj hi
    exact (head?_wouldEvictLocked_iff hcost hnodup hr hi).mp hf j' hj' hgo'

/-- Nobody but the incoming client enters the list. -/
theorem mem_addAndEvict (h : m.Compatible) {stray : Nat → K} {d : ClientDescriptor K}
    (hd : d ∈ (m.addAndEvict stray client).1.mClients) : d ∈ m.mClients ∨ d = client := by
  obtain ⟨_, _, -, -, hsame⟩ | ⟨-, hclients, kept, hadm, -⟩ := addAndEvict_cases m stray client
  · rw [hsame] at hd
    exact .inl hd
  · rw [hclients] at hd
    obtain hd | hd := List.mem_append.mp hd
    · have hsub := (swept_sublist hadm.split h.keys stray).trans hadm.split.sublist_kept
      exact .inl (hsub.subset hd)
    · exact .inr (List.mem_singleton.mp hd)

theorem cost_nonneg_of_run (h : (machine mMaxCost mListener).Run Permitted m) :
    ∀ d ∈ m.mClients, 0 ≤ d.mCost := by
  refine (h.invariant (I := fun m => m.Compatible ∧ ∀ d ∈ m.mClients, 0 ≤ d.mCost)
    ⟨.nil, fun d hd => (List.not_mem_nil hd).elim⟩ ?_).2
  rintro m call _ ⟨hm, hcost⟩ hp hs
  cases hs
  refine ⟨hm.step call, fun d hd => ?_⟩
  cases call with
  | addAndEvict client stray =>
    cases client with
    | none => exact hcost d hd
    | some client =>
      rcases mem_addAndEvict hm hd with hd | rfl
      · exact hcost d hd
      · exact hp.1
  | updatePriorities ownerPriorityList =>
    obtain ⟨i, hi, rfl⟩ := List.mem_map.mp hd
    have hi := hcost i hi
    split <;> exact hi
  | removeKey key => exact hcost d (List.mem_of_mem_filter hd)
  | remove ref => exact hcost d (List.mem_of_mem_filter hd)
  | removeAll => cases hd

/-- An admitted client takes the place of the clients that are returned. -/
theorem Admitted.length {res : ClientManager K × List (ClientDescriptor K)}
    (h : Admitted m client res) (hne : res.2 ≠ [client]) :
    res.1.mClients.length + res.2.length = m.mClients.length + 1 := by
  rcases h with ⟨hself, -⟩ | ⟨kept, hclients, hadm, -⟩
  · exact absurd hself hne
  · have hlen := hadm.split.length
    rw [hclients, List.length_append, List.length_singleton]
    omega

theorem admitted_of_sweepInBounds (hkeys : m.mClients.Pairwise fun a b => a.mKey ≠ b.mKey)
    (hcost : ∀ d ∈ m.mClients, 0 ≤ d.mCost) (hin : m.SweepInBounds client) (stray : Nat → K) :
    Admitted m client (m.addAndEvict stray client) := by
  rw [Admitted, addAndEvict_snd]
  obtain ⟨first, rest, hev, href, hsame⟩ | ⟨hfirst, hclients, kept, hadm, haff⟩ :=
    addAndEvict_cases m stray client
  · left
    refine ⟨?_, by rw [hsame]⟩
    obtain hnil | hself | ⟨hhead, -⟩ := hin
    · rw [hev] at hnil
      cases hnil
    · exact hself
    · rw [hev] at hhead
      exact absurd href (hhead first rfl)
  · right
    refine ⟨kept, ?_, hadm, haff hcost⟩
    rw [hclients, swept]
    split
    · next hnil =>
      have hsplit := hadm.split
      rw [hnil] at hsplit
      rw [hsplit.kept_eq]
    · next hne =>
      obtain hnil | hself | ⟨-, hlast⟩ := hin
      · exact absurd hnil hne
      · rw [hself] at hfirst
        exact absurd rfl (hfirst client rfl)
      · rw [removeEvicted_eq hadm.split hkeys hne hlast]

/-- In every state that calls with real clients lead to, an incoming client is treated as the
class promises, whatever lies past the end of the eviction list, exactly if it is safe to
add. -/
theorem addAndEvict_admitted_iff (h : (machine mMaxCost mListener).Run Permitted m)
    (hclient : ∀ d ∈ m.mClients, d.ref = client.ref → d = client) :
    (∀ stray, Admitted m client (m.addAndEvict stray client)) ↔ m.SafeToAdd client := by
  have hkeys := (Compatible.of_run h).keys
  have hcost := cost_nonneg_of_run h
  rw [← sweepInBounds_iff hkeys hcost hclient]
  refine ⟨fun hall => ?_, admitted_of_sweepInBounds hkeys hcost⟩
  by_contra hout
  simp only [SweepInBounds, not_or, not_and] at hout
  obtain ⟨hne, hself, hlast⟩ := hout
  have hlength : ∀ stray, (m.addAndEvict stray client).1.mClients.length +
      (m.wouldEvictLocked client).length = m.mClients.length + 1 := by
    intro stray
    rw [← addAndEvict_snd m stray client]
    exact (hall stray).length (by rw [addAndEvict_snd]; exact hself)
  obtain ⟨kept, hadm, -⟩ := (wouldEvictLocked_spec m client).resolve_left hself
  have hsplit := hadm.split.length
  obtain ⟨first, rest, hev, href, hsame⟩ | ⟨hfirst, -⟩ :=
    addAndEvict_cases m (fun _ => client.mKey) client
  · -- the incoming client is the first to go: nobody goes, although several are returned
    have hlen := hlength fun _ => client.mKey
    rw [hsame, hev, List.length_cons] at hlen
    obtain rfl : rest = [] := List.length_eq_zero_iff.mp (by omega)
    have hmem : first ∈ m.mClients := by
      apply hadm.split.sublist_taken.subset
      rw [hev]
      exact List.mem_singleton_self first
    rw [hclient first hmem href] at hev
    exact hself hev
  · -- otherwise the client after the last one to go can be lost
    obtain ⟨stray, hlost⟩ := removeEvicted_length_lt hadm.split hkeys hne (hlast hfirst)
    have hlen := hlength stray
    obtain ⟨first, rest, hev, href, -⟩ | ⟨-, hclients, -⟩ := addAndEvict_cases m stray client
    · rw [hev] at hfirst
      exact hfirst first rfl href
    · rw [hclients, swept, if_neg hne, List.length_append, List.length_singleton] at hlen
      omega

theorem addAndEvict_admitted_iff_lastGoes :
    ∃ m : ClientManager Nat, (machine DEFAULT_MAX_COST none).Run Permitted m ∧
      m.wouldEvictLocked (aClient 2 3 10 {2} 5 7) = [aClient 1 2 10 {} 5 7] ∧
      ∀ stray, Admitted m (aClient 2 3 10 {2} 5 7) (m.addAndEvict stray (aClient 2 3 10 {2} 5 7)) := by
  have hr := Machine.Run.of_exec (machine (K := Nat) DEFAULT_MAX_COST none) Permitted
    [.addAndEvict (some (aClient 0 1 10 {} 5 7)) id, .addAndEvict (some (aClient 1 2 10 {} 5 7)) id]
    (by decide)
  exact ⟨_, hr, by decide, (addAndEvict_admitted_iff hr (by decide)).mpr (by decide)⟩

/-- The sweep looks for the end of the eviction list among the clients that stay: with what
lies there taken for key 2, client 2 is lost together with client 1. And a client that is
added again is returned with another one, while both stay. -/
theorem addAndEvict_loses_or_returns_too_many :
    (∃ m : ClientManager Nat, (machine DEFAULT_MAX_COST none).Run Permitted m ∧
      m.mClients = [aClient 0 1 10 {} 5 7, aClient 1 2 10 {} 5 7] ∧
      (m.addAndEvict (fun _ => 2) (aClient 2 3 10 {1} 5 7)).1.mClients = [aClient 2 3 10 {1} 5 7] ∧
      (m.addAndEvict (fun _ => 2) (aClient 2 3 10 {1} 5 7)).2 = [aClient 0 1 10 {} 5 7] ∧
      ¬Admitted m (aClient 2 3 10 {1} 5 7)
        (m.addAndEvict (fun _ => 2) (aClient 2 3 10 {1} 5 7))) ∧
    ∃ m : ClientManager Nat, (machine DEFAULT_MAX_COST none).Run Permitted m ∧
      ∀ stray, (m.addAndEvict stray (aClient 1 2 60 {} 5 7)).1 = m ∧
        (m.addAndEvict stray (aClient 1 2 60 {} 5 7)).2 =
          [aClient 1 2 60 {} 5 7, aClient 2 3 60 {} 5 7] ∧
        ¬Admitted m (aClient 1 2 60 {} 5 7) (m.addAndEvict stray (aClient 1 2 60 {} 5 7)) := by
  constructor
  · have hr := Machine.Run.of_exec (machine (K := Nat) DEFAULT_MAX_COST none) Permitted
      [.addAndEvict (some (aClient 0 1 10 {} 5 7)) id,
        .addAndEvict (some (aClient 1 2 10 {} 5 7)) id] (by decide)
    refine ⟨_, hr, by decide, by decide, by decide, fun hadm => ?_⟩
    exact absurd (hadm.length (by decide)) (by decide)
  · have hr := Machine.Run.of_exec (machine (K := Nat) DEFAULT_MAX_COST none) Permitted
      [.addAndEvict (some (aClient 0 1 0 {} 5 8)) id, .addAndEvict (some (aClient 1 2 60 {} 5 7)) id,
        .addAndEvict (some (aClient 2 3 60 {} 5 7)) id,
        .updatePriorities fun owner => if owner = 8 then some ⟨1, 0, false⟩ else none] (by decide)
    refine ⟨_, hr, fun stray => ⟨rfl, rfl, fun hadm => ?_⟩⟩
    have hlen : 3 + 2 = 3 + 1 := hadm.length (fun h => by cases congrArg List.length h)
    cases hlen

end ClientManager

end MediaFramework.Camera
