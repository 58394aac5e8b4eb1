import MediaFramework.Camera.ClientRuns
import Mathlib.Algebra.Order.BigOperators.Group.List

/-!
# Refusals and what explains them

`wouldEvictLocked` in its two modes: when it refuses the incoming client, and whether
`getIncompatibleClients` then names somebody. Costs may have any sign here; the running total
of the loop is followed client by client.
-/

namespace MediaFramework.Camera

open ClientDescriptor

variable {K : Type*} [DecidableEq K]

namespace ClientManager

variable {m : ClientManager K} {client : ClientDescriptor K} {j : Nat}

/-- The total cost after the loop has looked at one more client. -/
def spend (m : ClientManager K) (client : ClientDescriptor K) (totalCost : Int)
    (i : ClientDescriptor K) : Int :=
  if Conflicting i client ∨
      OverCost m.mMaxCost totalCost (m.highestPriorityOwner client) client i then
    totalCost - i.mCost
  else totalCost

/-- The total cost when the loop comes to active client number `j`. -/
def costLeft (m : ClientManager K) (client : ClientDescriptor K) (j : Nat) : Int :=
  (m.mClients.take j).foldl (m.spend client) (m.getCurrentCostLocked + client.mCost)

/-- The loop puts active client number `j` on the eviction list. -/
def Leaves (m : ClientManager K) (client : ClientDescriptor K) (j : Nat) : Prop :=
  ∃ i ∈ m.mClients[j]?, Conflicting i client ∨
    OverCost m.mMaxCost (m.costLeft client j) (m.highestPriorityOwner client) client i

instance (m : ClientManager K) (client : ClientDescriptor K) (j : Nat) :
    Decidable (m.Leaves client j) :=
  inferInstanceAs (Decidable (∃ i ∈ m.mClients[j]?, Conflicting i client ∨
    OverCost m.mMaxCost (m.costLeft client j) (m.highestPriorityOwner client) client i))

/-- An active client keeps the incoming one out. -/
def Opposed (m : ClientManager K) (client : ClientDescriptor K) : Prop :=
  ∃ d ∈ m.mClients, Incompatible m.mMaxCost (m.getCurrentCostLocked + client.mCost) client d

/-- The client is active already, and nobody else would go. -/
def OnlyItselfLeaves (m : ClientManager K) (client : ClientDescriptor K) : Prop :=
  ∃ j, m.mClients[j]? = some client ∧ ∀ j' < m.mClients.length, m.Leaves client j' → j' = j

/-- A refused client learns of active clients with higher priorities, and a client that is
told of a conflict is refused. -/
def RefusalExplained (m : ClientManager K) (client : ClientDescriptor K) : Prop :=
  (m.wouldEvictLocked client = [client] → m.getIncompatibleClients client ≠ [] ∧
      ∀ d ∈ m.getIncompatibleClients client, d.mPriority < client.mPriority) ∧
    ((∃ d ∈ m.getIncompatibleClients client, Conflicting d client) →
      m.wouldEvictLocked client = [client])

/-! ### The loop, client by client -/

theorem costLeft_succ {i : ClientDescriptor K} (hi : m.mClients[j]? = some i) :
    m.costLeft client (j + 1) = m.spend client (m.costLeft client j) i := by
  rw [costLeft, List.take_add_one, hi, Option.toList_some, List.foldl_append]
  rfl

theorem leaves_iff {i : ClientDescriptor K} (hi : m.mClients[j]? = some i) :
    m.Leaves client j ↔ Conflicting i client ∨
      OverCost m.mMaxCost (m.costLeft client j) (m.highestPriorityOwner client) client i := by
  rw [Leaves, hi]
  simp only [Option.mem_some_iff, exists_eq_left']

/-- The clients that the loop has put on the list when it comes to number `j`. -/
def leavers (m : ClientManager K) (client : ClientDescriptor K) (j : Nat) :
    List (ClientDescriptor K) :=
  ((List.range j).filter fun j' => m.Leaves client j').filterMap (m.mClients[·]?)

theorem leavers_succ {i : ClientDescriptor K} (hi : m.mClients[j]? = some i) :
    m.leavers client (j + 1) =
      m.leavers client j ++ if m.Leaves client j then [i] else [] := by
  rw [leavers, List.range_succ, List.filter_append, List.filterMap_append]
  congr 1
  split
  · next hgo => simp [hgo, hi]
  · next hstay => simp [hstay]

theorem scanEvicted_take_eq
    (hlow : ¬∃ i ∈ m.mClients, Conflicting i client ∧ i.mPriority < client.mPriority)
    (hj : j ≤ m.mClients.length) :
    scanEvicted m.mMaxCost (m.highestPriorityOwner client) client (m.mClients.take j)
        (m.getCurrentCostLocked + client.mCost) =
      some (m.leavers client j, m.costLeft client j) := by
  induction j with
  | zero => rfl
  | succ j ih =>
    obtain ⟨i, hi⟩ : ∃ i, m.mClients[j]? = some i := ⟨_, List.getElem?_eq_getElem hj⟩
    have hnot : ¬(Conflicting i client ∧ i.mPriority < client.mPriority) :=
      fun h => hlow ⟨i, List.mem_of_getElem? hi, h⟩
    rw [leavers_succ hi, costLeft_succ hi, spend, List.take_add_one, hi, Option.toList_some,
      scanEvicted_append, ih (Nat.le_of_succ_le hj), Option.bind_some]
    simp only [scanEvicted, if_neg hnot, ← leaves_iff hi]
    split <;> simp

theorem wouldEvictLocked_eq
    (hlow : ¬∃ i ∈ m.mClients, Conflicting i client ∧ i.mPriority < client.mPriority) :
    m.wouldEvictLocked client =
      if m.mMaxCost < m.costLeft client m.mClients.length ∧
          m.highestPriorityOwner client ≠ client.mOwnerId then [client]
      else m.leavers client m.mClients.length := by
  have hscan := scanEvicted_take_eq hlow (Nat.le_refl _)
  rw [List.take_length] at hscan
  simp only [wouldEvictLocked, hscan]

theorem wouldEvictLocked_of_conflict
    (hlow : ∃ i ∈ m.mClients, Conflicting i client ∧ i.mPriority < client.mPriority) :
    m.wouldEvictLocked client = [client] := by
  rw [wouldEvictLocked, scanEvicted_eq_none_iff.mpr hlow]

/-! ### When the list is the client itself -/

omit [DecidableEq K] in
/-- Reading a list at positions inside it gives one element if there is one position. -/
theorem filterMap_getElem?_eq_singleton_iff {l : List (ClientDescriptor K)} {js : List Nat}
    (hjs : ∀ j ∈ js, j < l.length) {d : ClientDescriptor K} :
    js.filterMap (l[·]?) = [d] ↔ ∃ j, js = [j] ∧ l[j]? = some d := by
  cases js with
  | nil => simp
  | cons j js =>
    obtain ⟨hj, hjs⟩ := List.forall_mem_cons.mp hjs
    obtain ⟨e, he⟩ : ∃ e, l[j]? = some e := ⟨_, List.getElem?_eq_getElem hj⟩
    rw [List.filterMap_cons_some he]
    cases js with
    | nil => simp [he]
    | cons j' js =>
      have hj' := List.getElem?_eq_getElem (hjs j' List.mem_cons_self)
      rw [List.filterMap_cons_some hj']
      simp

theorem leavers_eq_singleton_iff :
    m.leavers client m.mClients.length = [client] ↔ m.OnlyItselfLeaves client := by
  have hmem : ∀ j, j ∈ (List.range m.mClients.length).filter (fun j => m.Leaves client j) ↔
      j < m.mClients.length ∧ m.Leaves client j := by
    simp
  rw [leavers, filterMap_getElem?_eq_singleton_iff fun j hj => ((hmem j).mp hj).1]
  constructor
  · rintro ⟨j, hjs, hj⟩
    refine ⟨j, hj, fun j' hj' hgo => ?_⟩
    exact List.mem_singleton.mp (hjs ▸ (hmem j').mpr ⟨hj', hgo⟩)
  · rintro ⟨j, hj, honly⟩
    have hlt : j < m.mClients.length := (List.getElem?_eq_some_iff.mp hj).1
    -- an active client conflicts with itself
    have hgo : m.Leaves client j := (leaves_iff hj).mpr (.inl (.inl rfl))
    have hself := (hmem j).mpr ⟨hlt, hgo⟩
    have hrep := List.eq_replicate_of_mem fun j' hj' => honly j' ((hmem j').mp hj').1 ((hmem j').mp hj').2
    have hnodup := (List.nodup_range (n := m.mClients.length)).filter fun j => m.Leaves client j
    rw [hrep, List.nodup_replicate] at hnodup
    have hpos := List.length_pos_of_mem hself
    refine ⟨j, ?_, hj⟩
    rw [hrep, Nat.le_antisymm hnodup hpos]
    rfl

theorem wouldEvictLocked_eq_singleton_iff :
    m.wouldEvictLocked client = [client] ↔
      (∃ i ∈ m.mClients, Conflicting i client ∧ i.mPriority < client.mPriority) ∨
        (m.mMaxCost < m.costLeft client m.mClients.length ∧
          m.highestPriorityOwner client ≠ client.mOwnerId) ∨ m.OnlyItselfLeaves client := by
  by_cases hlow : ∃ i ∈ m.mClients, Conflicting i client ∧ i.mPriority < client.mPriority
  · exact ⟨fun _ => .inl hlow, fun _ => wouldEvictLocked_of_conflict hlow⟩
  rw [or_iff_right hlow, wouldEvictLocked_eq hlow, ← leavers_eq_singleton_iff]
  split
  · next hmax => exact ⟨fun _ => .inl hmax, fun _ => rfl⟩
  · next hmax => rw [or_iff_right hmax]

/-! ### Costs that are not negative -/

theorem costWithout_length (m : ClientManager K) (client : ClientDescriptor K) :
    m.costWithout client m.mClients.length = client.mCost + ((m.mClients.filter fun i =>
      ¬(Conflicting i client ∨ m.Expendable client i)).map (·.mCost)).sum := by
  have hperm := ((List.filter_append_perm (fun i : ClientDescriptor K =>
    Conflicting i client ∨ m.Expendable client i) m.mClients).map (·.mCost)).sum_eq
  rw [List.map_append, List.sum_append] at hperm
  rw [costWithout, List.take_length, getCurrentCostLocked, ← hperm]
  simp only [decide_not]
  omega

/-- When nobody keeps the client out, the cost that is left in the end is too high only if the
client's own cost is. -/
theorem lt_costLeft_iff (hcost : ∀ d ∈ m.mClients, 0 ≤ d.mCost) (hnone : ¬m.Opposed client)
    (howner : m.highestPriorityOwner client ≠ client.mOwnerId) :
    m.mMaxCost < m.costLeft client m.mClients.length ↔ m.mMaxCost < client.mCost := by
  have hopp : ∀ d ∈ m.mClients, d.mPriority < client.mPriority → ¬Conflicting d client ∧
      ¬(m.mMaxCost < m.getCurrentCostLocked + client.mCost ∧ 0 < d.mCost) := by
    intro d hd hlt
    rw [← not_or]
    exact fun h => hnone ⟨d, hd, hlt, h⟩
  have hlow : ¬∃ i ∈ m.mClients, Conflicting i client ∧ i.mPriority < client.mPriority := by
    rintro ⟨d, hd, hconf, hlt⟩
    exact (hopp d hd hlt).1 hconf
  obtain ⟨_, total, hscan, htrack, -⟩ := scanEvicted_take hcost hlow (Nat.le_refl _)
  rw [scanEvicted_take_eq hlow (Nat.le_refl _)] at hscan
  cases hscan
  rw [htrack.lt_iff]
  have hsum : ∀ p : ClientDescriptor K → Bool, 0 ≤ ((m.mClients.filter p).map (·.mCost)).sum := by
    intro p
    refine List.sum_nonneg fun c hc => ?_
    obtain ⟨d, hd, rfl⟩ := List.mem_map.mp hc
    exact hcost d (List.mem_of_mem_filter hd)
  by_cases hmax : m.mMaxCost < m.getCurrentCostLocked + client.mCost
  · -- whoever stays then stays because it costs nothing
    rw [costWithout_length, List.sum_eq_zero, Int.add_zero]
    intro c hc
    obtain ⟨d, hd, rfl⟩ := List.mem_map.mp hc
    rw [List.mem_filter, decide_eq_true_iff, not_or, Expendable] at hd
    obtain ⟨hd, -, hkept⟩ := hd
    refine Int.le_antisymm (Int.not_lt.mp fun hpos => hkept ⟨hpos, fun hlt => ?_, ?_⟩) (hcost d hd)
    · exact (hopp d hd hlt).2 ⟨hmax, hpos⟩
    · exact fun h => howner h.1
  · have hspent := hsum fun i => Conflicting i client ∨ m.Expendable client i
    have hcurrent := hsum fun _ => true
    rw [List.filter_true, ← getCurrentCostLocked] at hcurrent
    rw [costWithout, List.take_length]
    omega

/-! ### The explanation -/

theorem getIncompatibleClients_ne_nil_iff :
    m.getIncompatibleClients client ≠ [] ↔ m.Opposed client := by
  simp [getIncompatibleClients, Opposed, List.filter_eq_nil_iff]

theorem mem_getIncompatibleClients {d : ClientDescriptor K} :
    d ∈ m.getIncompatibleClients client ↔ d ∈ m.mClients ∧
      Incompatible m.mMaxCost (m.getCurrentCostLocked + client.mCost) client d := by
  simp [getIncompatibleClients]

/-- A refusal may come without anybody being named only if the costs lead to it or the client
refuses itself. -/
theorem refusalExplained_iff_opposed : m.RefusalExplained client ↔ m.Opposed client ∨
    (m.costLeft client m.mClients.length ≤ m.mMaxCost ∨
      m.highestPriorityOwner client = client.mOwnerId) ∧ ¬m.OnlyItselfLeaves client := by
  have hconf : (∃ d ∈ m.getIncompatibleClients client, Conflicting d client) →
      m.wouldEvictLocked client = [client] := by
    rintro ⟨d, hd, hc⟩
    obtain ⟨hd, hlt, -⟩ := mem_getIncompatibleClients.mp hd
    exact wouldEvictLocked_of_conflict ⟨d, hd, hc, hlt⟩
  have hhigher : ∀ d ∈ m.getIncompatibleClients client, d.mPriority < client.mPriority :=
    fun d hd => (mem_getIncompatibleClients.mp hd).2.1
  rw [RefusalExplained, and_iff_left hconf, and_iff_left hhigher, getIncompatibleClients_ne_nil_iff,
    wouldEvictLocked_eq_singleton_iff]
  by_cases hopp : m.Opposed client
  · exact ⟨fun _ => .inl hopp, fun _ _ => hopp⟩
  have hlow : ¬∃ i ∈ m.mClients, Conflicting i client ∧ i.mPriority < client.mPriority := by
    rintro ⟨d, hd, hc, hlt⟩
    exact hopp ⟨d, hd, hlt, .inl hc⟩
  rw [or_iff_right hlow, or_iff_right hopp, imp_iff_not hopp, not_or, not_and_or, not_not, not_lt]

/-- A refusal is explained if an active client keeps the incoming one out; or if the incoming
client is not refused for the cost that is left in the end, and is not an active client that
goes alone. Where no active client has a negative cost, the cost that is left is too high only
because the incoming client's own cost is. -/
theorem refusalExplained_iff (m : ClientManager K) (client : ClientDescriptor K) :
    (m.RefusalExplained client ↔ m.Opposed client ∨
      (m.costLeft client m.mClients.length ≤ m.mMaxCost ∨
        m.highestPriorityOwner client = client.mOwnerId) ∧ ¬m.OnlyItselfLeaves client) ∧
    ((∀ d ∈ m.mClients, 0 ≤ d.mCost) → (m.RefusalExplained client ↔ m.Opposed client ∨
      (client.mCost ≤ m.mMaxCost ∨ m.highestPriorityOwner client = client.mOwnerId) ∧
        ¬m.OnlyItselfLeaves client)) := by
  refine ⟨refusalExplained_iff_opposed, fun hcost => ?_⟩
  rw [refusalExplained_iff_opposed]
  refine or_congr_right' fun hopp => and_congr_left' (or_congr_left' fun howner => ?_)
  have hlt := lt_costLeft_iff hcost hopp howner
  omega

/-- A client that costs too much by itself is refused because of an active client that costs
nothing, and nobody is named. And a client that is added twice is refused without anybody
being named. -/
theorem refusal_without_incompatible_clients :
    (∃ m : ClientManager Nat, (machine DEFAULT_MAX_COST none).Run Permitted m ∧
      m.mClients = [aClient 0 1 0 {} 5 7] ∧
      m.wouldEvictLocked (aClient 1 2 101 {} 6 8) = [aClient 1 2 101 {} 6 8] ∧
      m.getIncompatibleClients (aClient 1 2 101 {} 6 8) = [] ∧
      ¬m.RefusalExplained (aClient 1 2 101 {} 6 8)) ∧
    ∃ m : ClientManager Nat, (machine DEFAULT_MAX_COST none).Run Permitted m ∧
      m.mClients = [aClient 0 1 10 {} 5 7] ∧
      m.wouldEvictLocked (aClient 0 1 10 {} 5 7) = [aClient 0 1 10 {} 5 7] ∧
      m.getIncompatibleClients (aClient 0 1 10 {} 5 7) = [] ∧
      ¬m.RefusalExplained (aClient 0 1 10 {} 5 7) := by
  constructor
  · have hr := Machine.Run.of_exec (machine (K := Nat) DEFAULT_MAX_COST none) Permitted
      [.addAndEvict (some (aClient 0 1 0 {} 5 7)) id] (by decide)
    exact ⟨_, hr, by decide, by decide, by decide, fun h => (h.1 (by decide)).1 (by decide)⟩
  · have hr := Machine.Run.of_exec (machine (K := Nat) DEFAULT_MAX_COST none) Permitted
      [.addAndEvict (some (aClient 0 1 10 {} 5 7)) id] (by decide)
    exact ⟨_, hr, by decide, by decide, by decide, fun h => (h.1 (by decide)).1 (by decide)⟩

end ClientManager

end MediaFramework.Camera
