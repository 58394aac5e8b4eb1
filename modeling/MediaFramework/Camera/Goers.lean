import MediaFramework.Camera.Eviction

/-!
# Who has to go

The clients that `wouldEvictLocked` lists, said of the active clients alone: the running total
of its loop is replaced by the cost that is left when everybody ahead who can go has gone.
-/

namespace MediaFramework.Camera

open ClientDescriptor

variable {K : Type*} [DecidableEq K]

namespace ClientManager

variable {m : ClientManager K} {client : ClientDescriptor K} {j : Nat}

/-- A client that can go to save its cost. -/
def Expendable (m : ClientManager K) (client i : ClientDescriptor K) : Prop :=
  0 < i.mCost ∧ client.mPriority ≤ i.mPriority ∧
    ¬(m.highestPriorityOwner client = client.mOwnerId ∧ client.mOwnerId = i.mOwnerId)

instance (m : ClientManager K) (client i : ClientDescriptor K) :
    Decidable (m.Expendable client i) := inferInstanceAs (Decidable (_ ∧ _ ∧ _))

/-- The total cost with the incoming client, without those of the first `j` active clients that
conflict with it or are expendable. -/
def costWithout (m : ClientManager K) (client : ClientDescriptor K) (j : Nat) : Int :=
  m.getCurrentCostLocked + client.mCost - (((m.mClients.take j).filter fun i =>
    Conflicting i client ∨ m.Expendable client i).map (·.mCost)).sum

/-- Active client number `j` conflicts, or is expendable and the cost is still too high. -/
def Goes (m : ClientManager K) (client : ClientDescriptor K) (j : Nat) : Prop :=
  ∃ i ∈ m.mClients[j]?, Conflicting i client ∨
    m.Expendable client i ∧ m.mMaxCost < m.costWithout client j

instance (m : ClientManager K) (client : ClientDescriptor K) (j : Nat) :
    Decidable (m.Goes client j) :=
  inferInstanceAs (Decidable (∃ i ∈ m.mClients[j]?, Conflicting i client ∨
    m.Expendable client i ∧ m.mMaxCost < m.costWithout client j))

/-- A conflicting client has a higher priority, or the cost stays too high and the owner of
the incoming client does not hold the highest priority. -/
def Refused (m : ClientManager K) (client : ClientDescriptor K) : Prop :=
  (∃ i ∈ m.mClients, Conflicting i client ∧ i.mPriority < client.mPriority) ∨
    m.mMaxCost < m.costWithout client m.mClients.length ∧
      m.highestPriorityOwner client ≠ client.mOwnerId

instance (m : ClientManager K) (client : ClientDescriptor K) : Decidable (m.Refused client) :=
  inferInstanceAs (Decidable (_ ∨ _ ∧ _))

/-! ### The loop -/

theorem scanEvicted_append (mMaxCost owner : Int) (client : ClientDescriptor K)
    (l₁ l₂ : List (ClientDescriptor K)) (total : Int) :
    scanEvicted mMaxCost owner client (l₁ ++ l₂) total =
      (scanEvicted mMaxCost owner client l₁ total).bind fun (evicted, total) =>
        (scanEvicted mMaxCost owner client l₂ total).map fun (evicted', total) =>
          (evicted ++ evicted', total) := by
  induction l₁ generalizing total with
  | nil =>
    simp only [List.nil_append, scanEvicted, Option.bind_some]
    exact Option.map_id'.symm
  | cons i l₁ ih =>
    rw [List.cons_append, scanEvicted, scanEvicted]
    split
    · rfl
    split
    · rw [ih]
      cases scanEvicted mMaxCost owner client l₁ (total - i.mCost) with
      | none => rfl
      | some res =>
        simp only [Option.bind_some, Option.map_some, Option.map_map]
        rfl
    · exact ih total

theorem scanEvicted_eq_none_iff {mMaxCost owner : Int} {l : List (ClientDescriptor K)} {total : Int} :
    scanEvicted mMaxCost owner client l total = none ↔
      ∃ i ∈ l, Conflicting i client ∧ i.mPriority < client.mPriority := by
  induction l generalizing total with
  | nil => simp [scanEvicted]
  | cons i l ih =>
    rw [scanEvicted, List.exists_mem_cons_iff]
    split
    · next hlow => exact ⟨fun _ => .inl hlow, fun _ => rfl⟩
    next hlow =>
    split
    · rw [Option.map_eq_none_iff, ih, or_iff_right hlow]
    · rw [ih, or_iff_right hlow]

theorem goes_iff {i : ClientDescriptor K} (hi : m.mClients[j]? = some i) :
    m.Goes client j ↔ Conflicting i client ∨
      m.Expendable client i ∧ m.mMaxCost < m.costWithout client j := by
  rw [Goes, hi]
  simp only [Option.mem_some_iff, exists_eq_left']

theorem costWithout_succ {i : ClientDescriptor K} (hi : m.mClients[j]? = some i) :
    m.costWithout client (j + 1) = m.costWithout client j -
      if Conflicting i client ∨ m.Expendable client i then i.mCost else 0 := by
  simp only [costWithout, List.take_add_one, hi, Option.toList_some, List.filter_append,
    List.map_append, List.sum_append]
  split
  · next hgo => simp [hgo]; omega
  · next hstay => simp [hstay]

/-- A running total of the loop before client number `j`: while it is too high, everybody who
can go has gone. -/
def Tracks (m : ClientManager K) (client : ClientDescriptor K) (j : Nat) (total : Int) : Prop :=
  m.costWithout client j ≤ total ∧ (m.mMaxCost < total → total = m.costWithout client j)

theorem Tracks.lt_iff {total : Int} (h : m.Tracks client j total) :
    m.mMaxCost < total ↔ m.mMaxCost < m.costWithout client j :=
  ⟨fun hlt => h.2 hlt ▸ hlt, fun hlt => Int.lt_of_lt_of_le hlt h.1⟩

theorem Tracks.goes_iff {total : Int} {i : ClientDescriptor K} (h : m.Tracks client j total)
    (hi : m.mClients[j]? = some i) :
    m.Goes client j ↔ Conflicting i client ∨
      OverCost m.mMaxCost total (m.highestPriorityOwner client) client i := by
  rw [ClientManager.goes_iff hi, OverCost, Expendable, h.lt_iff]
  tauto

theorem Tracks.go {total : Int} {i : ClientDescriptor K} (h : m.Tracks client j total)
    (hi : m.mClients[j]? = some i) (hi0 : 0 ≤ i.mCost) (hgo : m.Goes client j) :
    m.Tracks client (j + 1) (total - i.mCost) := by
  have hcan := ((ClientManager.goes_iff hi).mp hgo).imp_right And.left
  obtain ⟨hle, heq⟩ := h
  rw [Tracks, costWithout_succ hi, if_pos hcan]
  refine ⟨by omega, fun hlt => ?_⟩
  rw [heq (by omega)]

theorem Tracks.stay {total : Int} {i : ClientDescriptor K} (h : m.Tracks client j total)
    (hi : m.mClients[j]? = some i) (hi0 : 0 ≤ i.mCost) (hgo : ¬m.Goes client j) :
    m.Tracks client (j + 1) total := by
  obtain ⟨hle, heq⟩ := h
  rw [Tracks, costWithout_succ hi]
  split
  · next hcan =>
    -- an expendable client that stays does so because the total is low enough
    rw [ClientManager.goes_iff hi, not_or, not_and] at hgo
    have hlow := hgo.2 (hcan.resolve_left hgo.1)
    exact ⟨by omega, fun hlt => absurd (heq hlt ▸ hlt) hlow⟩
  · rw [Int.sub_zero]
    exact ⟨hle, heq⟩

section

variable (hcost : ∀ d ∈ m.mClients, 0 ≤ d.mCost)

include hcost

/-- The loop over the first `j` clients. -/
theorem scanEvicted_take
    (hlow : ¬∃ i ∈ m.mClients, Conflicting i client ∧ i.mPriority < client.mPriority)
    (hj : j ≤ m.mClients.length) :
    ∃ evicted total, scanEvicted m.mMaxCost (m.highestPriorityOwner client) client
        (m.mClients.take j) (m.getCurrentCostLocked + client.mCost) = some (evicted, total) ∧
      m.Tracks client j total ∧
      ∀ d, d ∈ evicted ↔ ∃ j' < j, m.Goes client j' ∧ m.mClients[j']? = some d := by
  induction j with
  | zero => exact ⟨[], _, rfl, by simp [Tracks, costWithout], by simp⟩
  | succ j ih =>
    obtain ⟨evicted, total, hscan, htrack, hmem⟩ := ih (Nat.le_of_succ_le hj)
    obtain ⟨i, hi⟩ : ∃ i, m.mClients[j]? = some i := ⟨_, List.getElem?_eq_getElem hj⟩
    have hmemi := List.mem_of_getElem? hi
    have hnot : ¬(Conflicting i client ∧ i.mPriority < client.mPriority) :=
      fun h => hlow ⟨i, hmemi, h⟩
    have hstep : ∀ d, (∃ j' < j + 1, m.Goes client j' ∧ m.mClients[j']? = some d) ↔
        d ∈ evicted ∨ m.Goes client j ∧ d = i := by
      intro d
      rw [Nat.exists_lt_succ_right, ← hmem, hi, Option.some_inj, eq_comm (a := i)]
    rw [List.take_add_one, hi, Option.toList_some, scanEvicted_append, hscan, Option.bind_some]
    simp only [scanEvicted, if_neg hnot, hstep]
    by_cases hgo : m.Goes client j
    · rw [if_pos ((htrack.goes_iff hi).mp hgo)]
      refine ⟨evicted ++ [i], _, rfl, htrack.go hi (hcost i hmemi) hgo, fun d => ?_⟩
      simp [hgo]
    · rw [if_neg (mt (htrack.goes_iff hi).mpr hgo)]
      refine ⟨evicted, total, by simp, htrack.stay hi (hcost i hmemi) hgo, fun d => ?_⟩
      simp [hgo]

theorem wouldEvictLocked_of_refused (h : m.Refused client) :
    m.wouldEvictLocked client = [client] := by
  by_cases hlow : ∃ i ∈ m.mClients, Conflicting i client ∧ i.mPriority < client.mPriority
  · rw [wouldEvictLocked, scanEvicted_eq_none_iff.mpr hlow]
  · obtain ⟨_, total, hscan, htrack, -⟩ := scanEvicted_take hcost hlow (Nat.le_refl _)
    obtain ⟨hmax, howner⟩ := h.resolve_left hlow
    rw [List.take_length] at hscan
    simp only [wouldEvictLocked, hscan]
    exact if_pos ⟨htrack.lt_iff.mpr hmax, howner⟩

/-- A client that is not refused gets the list that the loop has made. -/
theorem wouldEvictLocked_of_not_refused (h : ¬m.Refused client) :
    ∃ total, scanEvicted m.mMaxCost (m.highestPriorityOwner client) client m.mClients
      (m.getCurrentCostLocked + client.mCost) = some (m.wouldEvictLocked client, total) := by
  obtain ⟨hlow, hafford⟩ := not_or.mp h
  obtain ⟨evicted, total, hscan, htrack, -⟩ := scanEvicted_take hcost hlow (Nat.le_refl _)
  rw [List.take_length] at hscan
  rw [← htrack.lt_iff] at hafford
  refine ⟨total, ?_⟩
  simp only [wouldEvictLocked, hscan, if_neg hafford]

theorem mem_wouldEvictLocked (h : ¬m.Refused client) {d : ClientDescriptor K} :
    d ∈ m.wouldEvictLocked client ↔
      ∃ j < m.mClients.length, m.Goes client j ∧ m.mClients[j]? = some d := by
  obtain ⟨_, hall⟩ := wouldEvictLocked_of_not_refused hcost h
  obtain ⟨_, _, hscan, -, hmem⟩ := scanEvicted_take hcost (not_or.mp h).1 (Nat.le_refl _)
  rw [List.take_length, hall] at hscan
  cases hscan
  exact hmem d

/-- The list up to and from one that goes. -/
theorem wouldEvictLocked_of_goes (h : ¬m.Refused client) {i : ClientDescriptor K}
    (hi : m.mClients[j]? = some i) (hgo : m.Goes client j) :
    ∃ before after, m.wouldEvictLocked client = before ++ i :: after ∧
      (∀ d, d ∈ before ↔ ∃ j' < j, m.Goes client j' ∧ m.mClients[j']? = some d) ∧
      after.Sublist (m.mClients.drop (j + 1)) := by
  obtain ⟨hj, hget⟩ := List.getElem?_eq_some_iff.mp hi
  obtain ⟨_, hall⟩ := wouldEvictLocked_of_not_refused hcost h
  obtain ⟨before, total, hscan, htrack, hmem⟩ :=
    scanEvicted_take hcost (not_or.mp h).1 (Nat.le_of_lt hj)
  have hclients : m.mClients = m.mClients.take j ++ i :: m.mClients.drop (j + 1) := by
    rw [← hget, List.cons_getElem_drop_succ, List.take_append_drop]
  have hnot : ¬(Conflicting i client ∧ i.mPriority < client.mPriority) :=
    fun hlow => (not_or.mp h).1 ⟨i, List.mem_of_getElem? hi, hlow⟩
  rw [hclients, scanEvicted_append, hscan] at hall
  simp only [Option.bind_some, scanEvicted, if_neg hnot, if_pos ((htrack.goes_iff hi).mp hgo)] at hall
  obtain ⟨_, hfrom, heq⟩ := Option.map_eq_some_iff.mp hall
  obtain ⟨⟨after, _⟩, hafter, rfl⟩ := Option.map_eq_some_iff.mp hfrom
  obtain ⟨_, hsplit, -⟩ := scanEvicted_spec hafter
  exact ⟨before, after, (congrArg Prod.fst heq).symm, hmem, hsplit.sublist_taken⟩

variable (hnodup : m.mClients.Nodup) (h : ¬m.Refused client)

include hnodup h

theorem wouldEvictLocked_eq_self_iff :
    m.wouldEvictLocked client = [] ∨ m.wouldEvictLocked client = [client] ↔
      ∀ j < m.mClients.length, m.Goes client j → m.mClients[j]? = some client := by
  constructor
  · intro hself j hj hgo
    obtain ⟨d, hd, -⟩ := id hgo
    have hmem := (mem_wouldEvictLocked hcost h).mpr ⟨j, hj, hgo, hd⟩
    obtain hnil | hone := hself
    · rw [hnil] at hmem
      cases hmem
    · rw [hone, List.mem_singleton] at hmem
      exact hmem ▸ hd
  · intro hself
    have hall : ∀ d ∈ m.wouldEvictLocked client, d = client := by
      intro d hd
      obtain ⟨j, hj, hgo, hd⟩ := (mem_wouldEvictLocked hcost h).mp hd
      exact Option.some.inj (hd.symm.trans (hself j hj hgo))
    obtain ⟨_, hscan⟩ := wouldEvictLocked_of_not_refused hcost h
    obtain ⟨_, hsplit, -⟩ := scanEvicted_spec hscan
    have hnodup' := hsplit.sublist_taken.nodup hnodup
    cases hev : m.wouldEvictLocked client with
    | nil => exact .inl rfl
    | cons d rest =>
      rw [hev] at hall hnodup'
      obtain ⟨rfl, hrest⟩ := List.forall_mem_cons.mp hall
      have hnil : rest = [] := by
        refine List.eq_nil_iff_forall_not_mem.mpr fun e he => ?_
        obtain rfl := hrest e he
        exact (List.nodup_cons.mp hnodup').1 he
      exact .inr (by rw [hnil])

/-- An active client that is added again goes first if nobody ahead of it goes. -/
theorem head?_wouldEvictLocked_iff (hi : m.mClients[j]? = some client) :
    (m.wouldEvictLocked client).head? = some client ↔ ∀ j' < j, ¬m.Goes client j' := by
  have hgo : m.Goes client j := (goes_iff hi).mpr (.inl (.inl rfl))
  obtain ⟨before, after, heq, hmem, -⟩ := wouldEvictLocked_of_goes hcost h hi hgo
  rw [heq]
  cases before with
  | nil =>
    refine ⟨fun _ j' hj' hgo' => ?_, fun _ => rfl⟩
    obtain ⟨d, hd, -⟩ := id hgo'
    exact List.not_mem_nil ((hmem d).mpr ⟨j', hj', hgo', hd⟩)
  | cons d before =>
    obtain ⟨j', hj', hgo', hd⟩ := (hmem d).mp List.mem_cons_self
    refine ⟨fun hhead => ?_, fun hnone => absurd hgo' (hnone j' hj')⟩
    cases hhead
    have hlt := (List.getElem?_eq_some_iff.mp hd).1
    have hsame := (List.getElem?_inj hlt hnodup).mp (hd.trans hi.symm)
    omega

/-- The list ends with the most recent client if that one goes. -/
theorem getLast?_wouldEvictLocked_iff (hne : m.wouldEvictLocked client ≠ []) :
    (m.wouldEvictLocked client).getLast? = m.mClients.getLast? ↔
      m.Goes client (m.mClients.length - 1) := by
  rw [List.getLast?_eq_getElem? (l := m.mClients)]
  constructor
  · intro hlast
    rw [List.getLast?_eq_getLast_of_ne_nil hne] at hlast
    obtain ⟨j, hj, hgo, hd⟩ := (mem_wouldEvictLocked hcost h).mp (List.getLast_mem hne)
    obtain rfl := (List.getElem?_inj hj hnodup).mp (hd.trans hlast)
    exact hgo
  · intro hgo
    obtain ⟨i, hi, -⟩ := id hgo
    obtain ⟨before, after, heq, -, hsub⟩ := wouldEvictLocked_of_goes hcost h hi hgo
    have hlen := (List.getElem?_eq_some_iff.mp hi).1
    rw [List.drop_eq_nil_of_le (by omega), List.sublist_nil] at hsub
    rw [heq, hsub, List.getLast?_append_cons, List.getLast?_singleton]
    exact hi.symm

end

end ClientManager

end MediaFramework.Camera
