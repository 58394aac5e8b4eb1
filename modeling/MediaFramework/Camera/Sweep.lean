import MediaFramework.Camera.ClientRuns
import MediaFramework.Lib.Split

/-!
# The sweep's iterator

`remove_if` in `addAndEvict` keeps an iterator into the eviction list, which it moves on at
every match. This module follows the iterator: where it reads, and when it stays inside.
-/

namespace MediaFramework.Camera

variable {K : Type*} [DecidableEq K]

namespace ClientManager

variable {m : ClientManager K} {client : ClientDescriptor K} {stray : Nat → K}
  {evicted clients kept : List (ClientDescriptor K)} {iter : Nat}

/-- `(*iter)->getKey()`. -/
def keyAt (stray : Nat → K) (evicted : List (ClientDescriptor K)) (iter : Nat) : K :=
  match evicted[iter]? with
  | some e => e.mKey
  | none => stray (iter - evicted.length)

/-- `remove_if` with the iterator as a position in the eviction list. Returns the positions
that are read, one for every client, and the clients that stay. -/
def sweep (stray : Nat → K) (evicted : List (ClientDescriptor K)) :
    Nat → List (ClientDescriptor K) → List Nat × List (ClientDescriptor K)
  | _, [] => ([], [])
  | iter, i :: rest =>
    if i.mKey = keyAt stray evicted iter then
      let (reads, kept) := sweep stray evicted (iter + 1) rest
      (iter :: reads, kept)
    else
      let (reads, kept) := sweep stray evicted iter rest
      (iter :: reads, i :: kept)

/-- The positions of the eviction list that `addAndEvict` reads in its sweep. -/
def sweepReads (m : ClientManager K) (stray : Nat → K) (client : ClientDescriptor K) : List Nat :=
  let evicted := m.wouldEvictLocked client
  match evicted with
  | [] => []
  | first :: _ => if first.ref = client.ref then [] else (sweep stray evicted 0 m.mClients).1

/-! ### The sweep and its iterator -/

omit [DecidableEq K] in
theorem keyAt_of_lt {e : ClientDescriptor K} {rest : List (ClientDescriptor K)}
    (h : evicted.drop iter = e :: rest) : keyAt stray evicted iter = e.mKey := by
  have he : evicted[iter]? = some e := by
    rw [← List.head?_drop, h, List.head?_cons]
  rw [keyAt, he]

omit [DecidableEq K] in
theorem lt_of_drop_eq_cons {e : ClientDescriptor K} {rest : List (ClientDescriptor K)}
    (h : evicted.drop iter = e :: rest) : iter < evicted.length := by
  by_contra hge
  rw [List.drop_eq_nil_of_le (by omega)] at h
  cases h

omit [DecidableEq K] in
theorem drop_succ_of_cons {e : ClientDescriptor K} {rest : List (ClientDescriptor K)}
    (h : evicted.drop iter = e :: rest) : evicted.drop (iter + 1) = rest := by
  rw [← List.drop_drop, h, List.drop_one, List.tail_cons]

theorem sweep_reads_cons (i : ClientDescriptor K) (rest : List (ClientDescriptor K)) :
    (sweep stray evicted iter (i :: rest)).1 = iter ::
      (sweep stray evicted (if i.mKey = keyAt stray evicted iter then iter + 1 else iter) rest).1 := by
  rw [sweep]
  split <;> rfl

theorem sweep_kept_cons (i : ClientDescriptor K) (rest : List (ClientDescriptor K)) :
    (sweep stray evicted iter (i :: rest)).2 =
      if i.mKey = keyAt stray evicted iter then (sweep stray evicted (iter + 1) rest).2
      else i :: (sweep stray evicted iter rest).2 := by
  rw [sweep]
  split <;> rfl

/-- The iterator's position carries the rest of the eviction list, or how far it is past it. -/
theorem sweep_snd (stray : Nat → K) (evicted : List (ClientDescriptor K)) (iter : Nat)
    (clients : List (ClientDescriptor K)) :
    (sweep stray evicted iter clients).2 =
      removeEvicted (fun n => stray (n + (iter - evicted.length))) (evicted.drop iter) clients := by
  induction clients generalizing iter with
  | nil => cases h : evicted.drop iter <;> rfl
  | cons i rest ih =>
    rw [sweep_kept_cons]
    cases h : evicted.drop iter with
    | nil =>
      have hle : evicted.length ≤ iter := List.drop_eq_nil_iff.mp h
      have hkey : keyAt stray evicted iter = stray (0 + (iter - evicted.length)) := by
        rw [keyAt, List.getElem?_eq_none hle, Nat.zero_add]
      rw [removeEvicted, hkey]
      split
      · rw [ih, List.drop_eq_nil_of_le (by omega)]
        congr 1
        funext n
        congr 1
        omega
      · rw [ih, h]
    | cons e es =>
      have hlt := lt_of_drop_eq_cons h
      rw [removeEvicted, keyAt_of_lt h]
      split
      · rw [ih, drop_succ_of_cons h]
        congr 1
        funext n
        congr 1
        omega
      · rw [ih, h]

/-- What `addAndEvict` leaves is what this sweep keeps. -/
theorem swept_eq_sweep (stray : Nat → K) (hne : evicted ≠ []) :
    swept stray evicted clients = (sweep stray evicted 0 clients).2 := by
  rw [swept, if_neg hne, sweep_snd]
  simp

/-! ### Where it reads -/

omit [DecidableEq K] in
/-- Two lists end alike before an element that does not come again as they do behind it. -/
theorem getLast?_cons_eq_iff {i : ClientDescriptor K} {taken : List (ClientDescriptor K)}
    (hi : i ∉ clients) (hsub : taken.Sublist clients) :
    (i :: taken).getLast? = (i :: clients).getLast? ↔ taken.getLast? = clients.getLast? := by
  cases taken with
  | nil =>
    cases clients with
    | nil => exact ⟨fun _ => rfl, fun _ => rfl⟩
    | cons c clients =>
      rw [List.getLast?_cons_cons, List.getLast?_singleton]
      refine ⟨fun h => absurd (List.mem_of_getLast? h.symm) hi, fun h => ?_⟩
      exact absurd (List.getLast?_eq_none_iff.mp h.symm) (List.cons_ne_nil c clients)
  | cons e taken =>
    rw [List.getLast?_cons_cons, getLast?_cons_of_mem (hsub.subset List.mem_cons_self)]

/-- The iterator stays inside if and only if it arrives at the end with the last client. -/
theorem sweep_inBounds_iff (h : Split clients (evicted.drop iter) kept)
    (hkeys : clients.Pairwise fun a b => a.mKey ≠ b.mKey) :
    (∀ pos ∈ (sweep stray evicted iter clients).1, pos < evicted.length) ↔
      (evicted.drop iter).getLast? = clients.getLast? := by
  generalize htaken : evicted.drop iter = taken at h
  induction h generalizing iter with
  | nil => exact ⟨fun _ => rfl, fun _ pos hpos => (List.not_mem_nil hpos).elim⟩
  | @take i clients taken kept hsplit ih =>
    obtain ⟨hi, hkeys'⟩ := List.pairwise_cons.mp hkeys
    have hlt := lt_of_drop_eq_cons htaken
    rw [sweep_reads_cons, keyAt_of_lt htaken, if_pos rfl, List.forall_mem_cons,
      and_iff_right hlt, ih hkeys' (drop_succ_of_cons htaken),
      getLast?_cons_eq_iff (fun hmem => hi i hmem rfl) hsplit.sublist_taken]
  | @keep i clients taken kept hsplit ih =>
    obtain ⟨hi, hkeys'⟩ := List.pairwise_cons.mp hkeys
    rw [sweep_reads_cons, List.forall_mem_cons]
    cases taken with
    | nil =>
      -- everybody on the list has been found, and one more client is looked at
      have hge : evicted.length ≤ iter := List.drop_eq_nil_iff.mp htaken
      refine ⟨fun hin => absurd hin.1 (Nat.not_lt.mpr hge), fun hlast => ?_⟩
      exact absurd (List.getLast?_eq_none_iff.mp hlast.symm) (List.cons_ne_nil i clients)
    | cons e taken =>
      have he : e ∈ clients := hsplit.sublist_taken.subset List.mem_cons_self
      have hlt := lt_of_drop_eq_cons htaken
      rw [keyAt_of_lt htaken, if_neg (hi e he), and_iff_right hlt, ih hkeys' htaken,
        getLast?_cons_of_mem he]

/-! ### The call -/

/-- The sweep of one call reads its eviction list only inside, and removes exactly the clients
on it, the others staying in their order. -/
def SweepExact (m : ClientManager K) (stray : Nat → K) (client : ClientDescriptor K) : Prop :=
  (∀ pos ∈ m.sweepReads stray client, pos < (m.wouldEvictLocked client).length) ∧
    (m.addAndEvict stray client).1.mClients =
      m.mClients.filter (· ∉ m.wouldEvictLocked client) ++ [client]

instance (m : ClientManager K) (stray : Nat → K) (client : ClientDescriptor K) :
    Decidable (m.SweepExact stray client) :=
  inferInstanceAs (Decidable (_ ∧ _))

/-- The sweep is right, and stays inside its eviction list, if there is nobody to evict, or if
the most recent client is the last one to go: otherwise it looks past the end. -/
theorem addAndEvict_sweepExact_iff (hkeys : m.mClients.Pairwise fun a b => a.mKey ≠ b.mKey)
    (hout : ∀ d ∈ m.wouldEvictLocked client, d.ref ≠ client.ref) (stray : Nat → K) :
    m.SweepExact stray client ↔ m.wouldEvictLocked client = [] ∨
      (m.wouldEvictLocked client).getLast? = m.mClients.getLast? := by
  have hnodup : m.mClients.Nodup := hkeys.imp fun hne heq => hne (congrArg _ heq)
  obtain ⟨first, rest, hev, href, -⟩ | ⟨-, hclients, kept, hadm, -⟩ :=
    addAndEvict_cases m stray client
  · exact absurd href (hout first (by rw [hev]; exact List.mem_cons_self))
  have hkept := hadm.split.kept_eq_filter hnodup
  rw [SweepExact, hclients, ← hkept, List.append_cancel_right_eq]
  by_cases hne : m.wouldEvictLocked client = []
  · have hsplit := hadm.split
    rw [hne] at hsplit
    simp [sweepReads, swept, hne, hsplit.kept_eq]
  have hreads : m.sweepReads stray client =
      (sweep stray (m.wouldEvictLocked client) 0 m.mClients).1 := by
    obtain ⟨first, rest, hev⟩ := List.exists_cons_of_ne_nil hne
    have href : first.ref ≠ client.ref := hout first (by rw [hev]; exact List.mem_cons_self)
    simp only [sweepReads, hev]
    rw [if_neg href]
  have hsplit : Split m.mClients ((m.wouldEvictLocked client).drop 0) kept := hadm.split
  rw [hreads, sweep_inBounds_iff hsplit hkeys, List.drop_zero, or_iff_right hne]
  refine ⟨And.left, fun hlast => ⟨hlast, ?_⟩⟩
  rw [swept, if_neg hne, removeEvicted_eq hadm.split hkeys hne hlast]

theorem addAndEvict_sweepExact_iff_lastGoes :
    ∃ m : ClientManager Nat, (machine DEFAULT_MAX_COST none).Run Permitted m ∧
      m.wouldEvictLocked (aClient 2 3 10 {2} 5 7) = [aClient 1 2 10 {} 5 7] ∧
      ∀ stray, m.SweepExact stray (aClient 2 3 10 {2} 5 7) := by
  have hr := Machine.Run.of_exec (machine (K := Nat) DEFAULT_MAX_COST none) Permitted
    [.addAndEvict (some (aClient 0 1 10 {} 5 7)) id, .addAndEvict (some (aClient 1 2 10 {} 5 7)) id]
    (by decide)
  refine ⟨_, hr, by decide, fun stray => ?_⟩
  exact (addAndEvict_sweepExact_iff (by decide) (by decide) stray).mpr (.inr (by decide))

/-- The first of two clients goes. The second one is then compared with what lies behind the
eviction list, and goes as well if its key is there. -/
theorem addAndEvict_reads_past_end :
    ∃ m : ClientManager Nat, (machine DEFAULT_MAX_COST none).Run Permitted m ∧
      m.mClients = [aClient 0 1 10 {} 5 7, aClient 1 2 10 {} 5 7] ∧
      m.wouldEvictLocked (aClient 2 3 10 {1} 5 7) = [aClient 0 1 10 {} 5 7] ∧
      m.sweepReads (fun _ => 2) (aClient 2 3 10 {1} 5 7) = [0, 1] ∧
      (m.addAndEvict (fun _ => 2) (aClient 2 3 10 {1} 5 7)).1.mClients = [aClient 2 3 10 {1} 5 7] ∧
      ¬m.SweepExact (fun _ => 2) (aClient 2 3 10 {1} 5 7) := by
  have hr := Machine.Run.of_exec (machine (K := Nat) DEFAULT_MAX_COST none) Permitted
    [.addAndEvict (some (aClient 0 1 10 {} 5 7)) id, .addAndEvict (some (aClient 1 2 10 {} 5 7)) id]
    (by decide)
  exact ⟨_, hr, by decide, by decide, by decide, by decide, by decide⟩

end ClientManager

end MediaFramework.Camera
