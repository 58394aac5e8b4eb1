import MediaFramework.Camera.ClientManager
import MediaFramework.Lib.Split
import Mathlib.Algebra.BigOperators.Group.List.Basic

/-!
# Eviction

What `wouldEvictLocked` decides, as a splitting of the active clients into those that go and
those that stay, and what the sweep of `addAndEvict` makes of it.
-/

namespace MediaFramework.Camera

open ClientDescriptor

/-! ### Priorities -/

namespace ClientPriority

variable {p q r : ClientPriority}

theorem lt_iff : p < q ↔ p.mScore < q.mScore ∨ p.mScore = q.mScore ∧ p.mState < q.mState := by
  change (if p.mScore = q.mScore then p.mState < q.mState else p.mScore < q.mScore) ↔ _
  split <;> omega

theorem le_iff : p ≤ q ↔ p.mScore < q.mScore ∨ p.mScore = q.mScore ∧ p.mState ≤ q.mState := by
  change ¬q < p ↔ _
  rw [lt_iff]
  omega

theorem le_refl (p : ClientPriority) : p ≤ p := by
  rw [le_iff]
  omega

theorem le_trans (h : p ≤ q) (h' : q ≤ r) : p ≤ r := by
  rw [le_iff] at *
  omega

theorem le_of_not_le (h : ¬p ≤ q) : q ≤ p := by
  rw [le_iff] at *
  omega

/-- The one priority that is not above another is the same or below it. -/
theorem lt_of_le_of_not_same (h : p ≤ q) (hs : ¬p.Same q) : p < q := by
  rw [le_iff] at h
  rw [lt_iff]
  rw [Same] at hs
  omega

theorem le_of_lt (h : p < q) : p ≤ q := by
  rw [lt_iff] at h
  rw [le_iff]
  omega

theorem le_of_same (h : p.Same q) : q ≤ p := by
  rw [Same] at h
  rw [le_iff]
  omega

end ClientPriority

variable {K : Type*} [DecidableEq K] {m : ClientManager K} {client : ClientDescriptor K}

namespace ClientManager

/-! ### The owner with the highest priority -/

omit [DecidableEq K] in
theorem scanHighest_spec (clients : List (ClientDescriptor K)) (p : ClientPriority) (owner : Int) :
    (scanHighest clients p owner).1 ≤ p ∧
      (∀ d ∈ clients, (scanHighest clients p owner).1 ≤ d.mPriority) ∧
      (scanHighest clients p owner = (p, owner) ∨
        ∃ d ∈ clients, scanHighest clients p owner = (d.mPriority, d.mOwnerId)) := by
  induction clients generalizing p owner with
  | nil => exact ⟨ClientPriority.le_refl p, fun d hd => (List.not_mem_nil hd).elim, .inl rfl⟩
  | cons i rest ih =>
    rw [scanHighest]
    split
    · next hle =>
      obtain ⟨h₁, h₂, h₃⟩ := ih i.mPriority i.mOwnerId
      refine ⟨ClientPriority.le_trans h₁ hle, List.forall_mem_cons.mpr ⟨h₁, h₂⟩, .inr ?_⟩
      obtain h₃ | ⟨d, hd, h₃⟩ := h₃
      · exact ⟨i, List.mem_cons_self, h₃⟩
      · exact ⟨d, List.mem_cons_of_mem i hd, h₃⟩
    · next hgt =>
      obtain ⟨h₁, h₂, h₃⟩ := ih p owner
      have hi := ClientPriority.le_trans h₁ (ClientPriority.le_of_not_le hgt)
      refine ⟨h₁, List.forall_mem_cons.mpr ⟨hi, h₂⟩, ?_⟩
      obtain h₃ | ⟨d, hd, h₃⟩ := h₃
      · exact .inl h₃
      · exact .inr ⟨d, List.mem_cons_of_mem i hd, h₃⟩

omit [DecidableEq K] in
/-- The owner of the incoming client comes out as the one with the highest priority only if
the client itself has it, or an active client of that owner with a priority above it. -/
theorem highestPriorityOwner_eq (h : m.highestPriorityOwner client = client.mOwnerId) :
    (∀ e ∈ m.mClients, client.mPriority ≤ e.mPriority) ∨
      ∃ d ∈ m.mClients, d.mOwnerId = client.mOwnerId ∧ d.mPriority < client.mPriority ∧
        ∀ e ∈ m.mClients, d.mPriority ≤ e.mPriority := by
  obtain ⟨hle, hall, hfrom⟩ := scanHighest_spec m.mClients client.mPriority client.mOwnerId
  simp only [highestPriorityOwner] at h
  by_cases hsame : (scanHighest m.mClients client.mPriority client.mOwnerId).1.Same client.mPriority
  · left
    intro e he
    exact ClientPriority.le_trans (ClientPriority.le_of_same hsame) (hall e he)
  · right
    rw [if_neg hsame] at h
    have hlt := ClientPriority.lt_of_le_of_not_same hle hsame
    rcases hfrom with heq | ⟨d, hd, heq⟩
    · rw [heq] at hsame
      exact absurd ⟨rfl, rfl⟩ hsame
    · rw [heq] at h hlt hall
      exact ⟨d, hd, h, hlt, hall⟩

/-! ### The eviction list -/

/-- A way to make room for a client: who goes and who stays. -/
structure Admission (m : ClientManager K) (client : ClientDescriptor K)
    (evicted kept : List (ClientDescriptor K)) : Prop where
  split : Split m.mClients evicted kept
  /-- Nobody who stays conflicts with the client. -/
  compatible : ∀ d ∈ kept, ¬Conflicting d client
  /-- Nobody who goes has a higher priority. -/
  notHigher : ∀ d ∈ evicted, ¬d.mPriority < client.mPriority
  /-- Who goes without a conflict goes for its cost. -/
  costly : ∀ d ∈ evicted, ¬Conflicting d client → 0 < d.mCost

/-- Who stays is affordable together with the client, or the client's owner holds the highest
priority and is the owner of every other client that could have gone. -/
def Affordable (m : ClientManager K) (client : ClientDescriptor K)
    (kept : List (ClientDescriptor K)) : Prop :=
  ((kept ++ [client]).map (·.mCost)).sum ≤ m.mMaxCost ∨
    (∃ d ∈ kept ++ [client], d.mOwnerId = client.mOwnerId ∧
      ∀ e ∈ m.mClients ++ [client], d.mPriority ≤ e.mPriority) ∧
    ∀ d ∈ kept, 0 < d.mCost → client.mPriority ≤ d.mPriority → d.mOwnerId = client.mOwnerId

/-- The loop over the clients. -/
theorem scanEvicted_spec {mMaxCost owner : Int} {clients evicted : List (ClientDescriptor K)}
    {total total' : Int}
    (h : scanEvicted mMaxCost owner client clients total = some (evicted, total')) :
    ∃ kept, Split clients evicted kept ∧ (∀ d ∈ kept, ¬Conflicting d client) ∧
      (∀ d ∈ evicted, ¬d.mPriority < client.mPriority) ∧
      (∀ d ∈ evicted, ¬Conflicting d client → 0 < d.mCost) ∧
      total' = total - (evicted.map (·.mCost)).sum ∧
      ((∀ d ∈ clients, 0 ≤ d.mCost) → total' ≤ total ∧
        (mMaxCost < total' → ∀ d ∈ kept, 0 < d.mCost → client.mPriority ≤ d.mPriority →
          owner = client.mOwnerId ∧ client.mOwnerId = d.mOwnerId)) := by
  induction clients generalizing evicted total with
  | nil =>
    cases h
    refine ⟨[], .nil, ?_, ?_, ?_, by simp, fun _ => ⟨Int.le_refl _, fun _ => ?_⟩⟩ <;>
      exact fun d hd => (List.not_mem_nil hd).elim
  | cons i rest ih =>
    rw [scanEvicted] at h
    split at h
    · cases h
    next hlow =>
    split at h
    · next hgo =>
      obtain ⟨⟨evicted', t⟩, hscan, heq⟩ := Option.map_eq_some_iff.mp h
      cases heq
      obtain ⟨kept, hsplit, hcomp, hnot, hcostly, htotal, hspared⟩ := ih hscan
      refine ⟨kept, .take i hsplit, hcomp, List.forall_mem_cons.mpr ⟨?_, hnot⟩,
        List.forall_mem_cons.mpr ⟨?_, hcostly⟩, ?_, ?_⟩
      · intro hlt
        obtain hconf | hover := hgo
        · exact hlow ⟨hconf, hlt⟩
        · exact hover.2.1 hlt
      · intro hconf
        exact (hgo.resolve_left hconf).1.2
      · rw [htotal, List.map_cons, List.sum_cons]
        omega
      · intro hcost
        have hi := hcost i List.mem_cons_self
        obtain ⟨hle, hsp⟩ := hspared fun d hd => hcost d (List.mem_cons_of_mem i hd)
        exact ⟨by omega, hsp⟩
    · next hstay =>
      obtain ⟨kept, hsplit, hcomp, hnot, hcostly, htotal, hspared⟩ := ih h
      refine ⟨i :: kept, .keep i hsplit, List.forall_mem_cons.mpr ⟨?_, hcomp⟩, hnot, hcostly,
        htotal, ?_⟩
      · intro hconf
        exact hstay (.inl hconf)
      · intro hcost
        obtain ⟨hle, hsp⟩ := hspared fun d hd => hcost d (List.mem_cons_of_mem i hd)
        refine ⟨hle, fun hmax => List.forall_mem_cons.mpr ⟨?_, hsp hmax⟩⟩
        -- the running total never rises, so it was too high here already
        intro hpos hprio
        by_contra hne
        exact hstay (.inr ⟨⟨by omega, hpos⟩, hprio, hne⟩)

/-- The client is refused, or room is made for it. -/
theorem wouldEvictLocked_spec (m : ClientManager K) (client : ClientDescriptor K) :
    m.wouldEvictLocked client = [client] ∨
      ∃ kept, Admission m client (m.wouldEvictLocked client) kept ∧
        ((∀ d ∈ m.mClients, 0 ≤ d.mCost) → Affordable m client kept) := by
  simp only [wouldEvictLocked]
  cases hscan : scanEvicted m.mMaxCost (m.highestPriorityOwner client) client m.mClients
      (m.getCurrentCostLocked + client.mCost) with
  | none => exact .inl rfl
  | some res =>
    obtain ⟨evicted, total⟩ := res
    simp only
    split
    · exact .inl rfl
    next hafford =>
    right
    obtain ⟨kept, hsplit, hcomp, hnot, hcostly, htotal, hspared⟩ := scanEvicted_spec hscan
    refine ⟨kept, ⟨hsplit, hcomp, hnot, hcostly⟩, fun hcost => ?_⟩
    have hsum : ((kept ++ [client]).map (·.mCost)).sum = total := by
      have hperm := (hsplit.perm.map (·.mCost)).sum_eq
      rw [List.map_append, List.sum_append] at hperm
      rw [List.map_append, List.sum_append, htotal, getCurrentCostLocked, ← hperm]
      simp only [List.map_cons, List.map_nil, List.sum_cons, List.sum_nil]
      omega
    rw [Affordable, hsum]
    by_cases hle : total ≤ m.mMaxCost
    · exact .inl hle
    right
    have hmax : m.mMaxCost < total := by omega
    have howner : m.highestPriorityOwner client = client.mOwnerId := by
      by_contra hne
      exact hafford ⟨hmax, hne⟩
    refine ⟨?_, fun d hd hpos hprio => ((hspared hcost).2 hmax d hd hpos hprio).2.symm⟩
    obtain hall | ⟨d, hd, hown, hlt, hall⟩ := highestPriorityOwner_eq howner
    · refine ⟨client, by simp, rfl, List.forall_mem_append.mpr ⟨hall, ?_⟩⟩
      exact List.forall_mem_singleton.mpr (ClientPriority.le_refl _)
    · -- a client above the incoming one is never evicted
      have hkept : d ∈ kept := by
        obtain hk | he := List.mem_append.mp (hsplit.perm.mem_iff.mpr hd)
        · exact hk
        · exact absurd hlt (hnot d he)
      refine ⟨d, List.mem_append_left _ hkept, hown, List.forall_mem_append.mpr ⟨hall, ?_⟩⟩
      exact List.forall_mem_singleton.mpr (ClientPriority.le_of_lt hlt)

/-! ### The sweep -/

/-- Whatever is read past the end of the eviction list, everybody on it goes. -/
theorem removeEvicted_sublist {clients evicted kept : List (ClientDescriptor K)}
    (h : Split clients evicted kept) (hkeys : clients.Pairwise fun a b => a.mKey ≠ b.mKey)
    (stray : Nat → K) : (removeEvicted stray evicted clients).Sublist kept := by
  induction h generalizing stray with
  | nil => rw [removeEvicted]
  | @take i clients evicted kept _ ih =>
    rw [removeEvicted, if_pos rfl]
    exact ih (List.pairwise_cons.mp hkeys).2 stray
  | @keep i clients evicted kept hsplit ih =>
    obtain ⟨hi, hkeys'⟩ := List.pairwise_cons.mp hkeys
    cases evicted with
    | nil =>
      -- the list is used up, and a stray key may still match a client that should stay
      rw [removeEvicted]
      split
      · exact (ih hkeys' _).cons i
      · exact (ih hkeys' stray).cons_cons i
    | cons e evicted =>
      have he : e ∈ clients := hsplit.sublist_taken.subset List.mem_cons_self
      rw [removeEvicted, if_neg (hi e he)]
      exact (ih hkeys' stray).cons_cons i

omit [DecidableEq K] in
theorem getLast?_cons_of_mem {a b : ClientDescriptor K} {clients : List (ClientDescriptor K)}
    (h : b ∈ clients) : (a :: clients).getLast? = clients.getLast? := by
  cases clients with
  | nil => cases h
  | cons c clients => exact List.getLast?_cons_cons

/-- If the list ends with a client that is evicted, the sweep ends with it. -/
theorem removeEvicted_eq {clients evicted kept : List (ClientDescriptor K)}
    (h : Split clients evicted kept) (hkeys : clients.Pairwise fun a b => a.mKey ≠ b.mKey)
    (hne : evicted ≠ []) (hlast : evicted.getLast? = clients.getLast?) (stray : Nat → K) :
    removeEvicted stray evicted clients = kept := by
  induction h with
  | nil => exact absurd rfl hne
  | @take i clients evicted kept hsplit ih =>
    obtain ⟨hi, hkeys'⟩ := List.pairwise_cons.mp hkeys
    rw [removeEvicted, if_pos rfl]
    cases evicted with
    | nil =>
      cases clients with
      | nil => rw [hsplit.kept_eq, removeEvicted]
      | cons j clients =>
        -- `i` would be the last client and stand before it as well
        rw [List.getLast?_cons_cons, List.getLast?_singleton] at hlast
        exact absurd rfl (hi i (List.mem_of_getLast? hlast.symm))
    | cons e evicted =>
      have he : e ∈ clients := hsplit.sublist_taken.subset List.mem_cons_self
      rw [List.getLast?_cons_cons, getLast?_cons_of_mem he] at hlast
      exact ih hkeys' (List.cons_ne_nil e evicted) hlast
  | @keep i clients evicted kept hsplit ih =>
    obtain ⟨hi, hkeys'⟩ := List.pairwise_cons.mp hkeys
    cases evicted with
    | nil => exact absurd rfl hne
    | cons e evicted =>
      have he : e ∈ clients := hsplit.sublist_taken.subset List.mem_cons_self
      rw [getLast?_cons_of_mem he] at hlast
      rw [removeEvicted, if_neg (hi e he), ih hkeys' (List.cons_ne_nil e evicted) hlast]

/-- Otherwise the client after the last one that is evicted can go as well. -/
theorem removeEvicted_length_lt {clients evicted kept : List (ClientDescriptor K)}
    (h : Split clients evicted kept) (hkeys : clients.Pairwise fun a b => a.mKey ≠ b.mKey)
    (hne : evicted ≠ []) (hlast : evicted.getLast? ≠ clients.getLast?) :
    ∃ stray, (removeEvicted stray evicted clients).length < kept.length := by
  induction h with
  | nil => exact absurd rfl hne
  | @take i clients evicted kept hsplit ih =>
    obtain ⟨hi, hkeys'⟩ := List.pairwise_cons.mp hkeys
    cases evicted with
    | nil =>
      cases clients with
      | nil => exact absurd rfl hlast
      | cons j clients =>
        -- `i` is the last one to go: what lies behind the list may read as the key of `j`
        refine ⟨fun _ => j.mKey, ?_⟩
        rw [removeEvicted, if_pos rfl, removeEvicted, if_pos rfl, hsplit.kept_eq]
        have hsub := removeEvicted_sublist (Split.keepAll clients) (List.pairwise_cons.mp hkeys').2
          fun _ => j.mKey
        exact Nat.lt_succ_of_le hsub.length_le
    | cons e evicted =>
      have he : e ∈ clients := hsplit.sublist_taken.subset List.mem_cons_self
      rw [List.getLast?_cons_cons, getLast?_cons_of_mem he] at hlast
      obtain ⟨stray, hlen⟩ := ih hkeys' (List.cons_ne_nil e evicted) hlast
      refine ⟨stray, ?_⟩
      rw [removeEvicted, if_pos rfl]
      exact hlen
  | @keep i clients evicted kept hsplit ih =>
    obtain ⟨hi, hkeys'⟩ := List.pairwise_cons.mp hkeys
    cases evicted with
    | nil => exact absurd rfl hne
    | cons e evicted =>
      have he : e ∈ clients := hsplit.sublist_taken.subset List.mem_cons_self
      rw [getLast?_cons_of_mem he] at hlast
      obtain ⟨stray, hlen⟩ := ih hkeys' (List.cons_ne_nil e evicted) hlast
      refine ⟨stray, ?_⟩
      rw [removeEvicted, if_neg (hi e he)]
      exact Nat.succ_lt_succ hlen

/-- The clients that are left after the sweep, which is made if there is anybody to remove. -/
def swept (stray : Nat → K) (evicted clients : List (ClientDescriptor K)) :
    List (ClientDescriptor K) :=
  if evicted = [] then clients else removeEvicted stray evicted clients

theorem swept_sublist {clients evicted kept : List (ClientDescriptor K)}
    (h : Split clients evicted kept) (hkeys : clients.Pairwise fun a b => a.mKey ≠ b.mKey)
    (stray : Nat → K) : (swept stray evicted clients).Sublist kept := by
  rw [swept]
  split
  · next hnil =>
    subst hnil
    rw [h.kept_eq]
  · exact removeEvicted_sublist h hkeys stray

/-- The call leaves everything as it is, or makes room for the client, sweeps and appends it. -/
theorem addAndEvict_cases (m : ClientManager K) (stray : Nat → K) (client : ClientDescriptor K) :
    (∃ first rest, m.wouldEvictLocked client = first :: rest ∧ first.ref = client.ref ∧
        (m.addAndEvict stray client).1 = m) ∨
      (∀ first ∈ (m.wouldEvictLocked client).head?, first.ref ≠ client.ref) ∧
        (m.addAndEvict stray client).1.mClients =
          swept stray (m.wouldEvictLocked client) m.mClients ++ [client] ∧
        ∃ kept, Admission m client (m.wouldEvictLocked client) kept ∧
          ((∀ d ∈ m.mClients, 0 ≤ d.mCost) → Affordable m client kept) := by
  have hspec := wouldEvictLocked_spec m client
  cases hev : m.wouldEvictLocked client with
  | nil =>
    right
    rw [hev] at hspec
    refine ⟨fun first hf => (Option.not_mem_none first hf).elim, ?_,
      hspec.resolve_left (List.cons_ne_nil client []).symm⟩
    simp only [addAndEvict, hev, swept, if_true]
    rfl
  | cons first rest =>
    simp only [addAndEvict, hev]
    by_cases href : first.ref = client.ref
    · rw [if_pos href]
      exact .inl ⟨first, rest, rfl, href, rfl⟩
    · rw [if_neg href]
      rw [hev] at hspec
      refine .inr ⟨?_, ?_, hspec.resolve_left ?_⟩
      · rintro _ ⟨⟩
        exact href
      · rw [swept, if_neg (List.cons_ne_nil first rest)]
        rfl
      · intro hself
        cases hself
        exact href rfl

end ClientManager

end MediaFramework.Camera
