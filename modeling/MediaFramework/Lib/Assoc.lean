import Mathlib.Data.Finset.Card

/-!
# Association lists

Entries in the order in which their keys came. An entry is read by `List.lookup`; a new value takes
the place of the one with the same key, or goes to the end.
-/

namespace Assoc

section Keys

variable {κ α : Type*} {entries entries' : List (κ × α)} {e : κ × α}

def keys (entries : List (κ × α)) : List κ := entries.map Prod.fst

@[simp] theorem keys_nil : keys ([] : List (κ × α)) = [] := rfl

@[simp] theorem keys_cons : keys (e :: entries) = e.1 :: keys entries := rfl

@[simp] theorem keys_append : keys (entries ++ entries') = keys entries ++ keys entries' :=
  List.map_append

@[simp] theorem length_keys : (keys entries).length = entries.length := List.length_map _

theorem key_mem (h : e ∈ entries) : e.1 ∈ keys entries := List.mem_map_of_mem h

/-! ### A choice of entries -/

/-- New values for some of the entries. -/
def select (c : κ × α → Option α) (entries : List (κ × α)) : List (κ × α) :=
  entries.filterMap fun e => (c e).map (Prod.mk e.1)

theorem select_cons {c : κ × α → Option α} : select c (e :: entries) =
    (c e).elim (select c entries) fun a => (e.1, a) :: select c entries := by
  rw [select, List.filterMap_cons]
  cases c e <;> rfl

theorem keys_select_sublist {c : κ × α → Option α} :
    (keys (select c entries)).Sublist (keys entries) := by
  induction entries with
  | nil => exact .slnil
  | cons e entries ih =>
    rw [select_cons]
    cases c e with
    | none => exact ih.cons _
    | some a => exact ih.cons_cons _

/-! ### Removal

The last entry takes the place of the one that is removed. -/

def removeAt (i : Nat) (entries : List (κ × α)) : List (κ × α) :=
  match entries.getLast? with
  | none => []
  | some last => (entries.set i last).dropLast

theorem removeAt_concat {i : Nat} :
    removeAt i (entries ++ [e]) = ((entries ++ [e]).set i e).dropLast := by
  rw [removeAt, List.getLast?_concat]

theorem getElem?_removeAt {i j : Nat} (h : i < entries.length) :
    (removeAt i entries)[j]? = if j = entries.length - 1 then none
      else if j = i then entries[entries.length - 1]? else entries[j]? := by
  rw [← List.getLast?_eq_getElem?]
  rcases List.eq_nil_or_concat' entries with rfl | ⟨init, last, rfl⟩
  · cases h
  · rw [removeAt_concat, List.getLast?_concat, List.dropLast_eq_take, List.length_set, List.getElem?_take,
      List.getElem?_set]
    have hlength : (init ++ [last]).length - 1 = init.length := by simp
    rw [hlength]
    obtain hlt | rfl | hgt := Nat.lt_trichotomy j init.length
    · rw [if_pos hlt, if_neg (Nat.ne_of_lt hlt), if_pos h]
      exact if_congr eq_comm rfl rfl
    · rw [if_neg (Nat.lt_irrefl _), if_pos rfl]
    · have hnone : (init ++ [last])[j]? = none := List.getElem?_eq_none (by simp; omega)
      rw [if_neg (by omega), if_neg (by omega), if_neg (by simp at h; omega), hnone]

theorem removeAt_last {i : Nat} (h : i + 1 = entries.length) :
    removeAt i entries = entries.dropLast := by
  rcases List.eq_nil_or_concat' entries with rfl | ⟨init, last, rfl⟩
  · rfl
  · obtain rfl : i = init.length := by simpa using h
    rw [removeAt_concat, List.set_append_right _ _ (Nat.le_refl _), Nat.sub_self, List.set_cons_zero]

theorem removeAt_perm {i : Nat} (h : i < entries.length) :
    entries.Perm (entries[i] :: removeAt i entries) := by
  rcases List.eq_nil_or_concat' entries with rfl | ⟨init, last, rfl⟩
  · cases h
  · rw [List.length_append, List.length_singleton] at h
    obtain hlast | hinit := Nat.eq_or_lt_of_le (Nat.le_of_lt_succ h)
    · subst hlast
      rw [removeAt_concat, List.getElem_concat_length rfl, List.set_append_right _ _ (Nat.le_refl _),
        Nat.sub_self, List.set_cons_zero, List.dropLast_concat]
      exact List.perm_append_singleton last init
    · rw [removeAt_concat, List.getElem_append_left hinit, List.set_append_left _ _ hinit,
        List.dropLast_concat]
      calc (init ++ [last]).Perm (last :: init) := List.perm_append_singleton last init
        List.Perm _ (last :: init[i] :: init.eraseIdx i) :=
          .cons _ (List.getElem_cons_eraseIdx_perm hinit).symm
        List.Perm _ (init[i] :: last :: init.eraseIdx i) := .swap ..
        List.Perm _ (init[i] :: init.set i last) :=
          .cons _ (List.set_perm_cons_eraseIdx hinit last).symm

theorem nodup_removeAt {i : Nat} (hnodup : (keys entries).Nodup) (h : i < entries.length) :
    (keys (removeAt i entries)).Nodup :=
  (List.nodup_cons.mp (((removeAt_perm h).map Prod.fst).nodup_iff.mp hnodup)).2

/-! ### A new key for an entry -/

theorem keys_rename (k : κ) (a : α) (i : Nat) (entries : List (κ × α)) :
    keys (entries.set i (k, a)) = (keys entries).set i k := List.map_set

theorem nodup_rename {k : κ} (hnodup : (keys entries).Nodup) (hk : k ∉ keys entries) (a : α) (i : Nat) :
    (keys (entries.set i (k, a))).Nodup := by
  rw [keys_rename]
  exact hnodup.set hk

end Keys

variable {κ α : Type*} [DecidableEq κ] {k k' : κ} {a : α} {entries entries' : List (κ × α)}
  {e : κ × α}

def put (k : κ) (a : α) : List (κ × α) → List (κ × α)
  | [] => [(k, a)]
  | e :: entries => if e.1 = k then (k, a) :: entries else e :: put k a entries

/-! ### Lookup -/

theorem lookup_cons : (e :: entries).lookup k = if k = e.1 then some e.2 else entries.lookup k := by
  by_cases h : k = e.1
  · rw [List.lookup_cons, if_pos h, beq_iff_eq.mpr h]
  · rw [List.lookup_cons, if_neg h, beq_false_of_ne h]

theorem lookup_eq_none : entries.lookup k = none ↔ k ∉ keys entries := by
  induction entries with
  | nil => exact iff_of_true rfl List.not_mem_nil
  | cons e entries ih =>
    rw [lookup_cons, keys_cons, List.mem_cons, not_or]
    split
    · next h => exact iff_of_false (by simp) fun hne => hne.1 h
    · next h => rw [ih, and_iff_right h]

theorem mem_of_lookup (h : entries.lookup k = some a) : (k, a) ∈ entries := by
  induction entries with
  | nil => cases h
  | cons e entries ih =>
    rw [lookup_cons] at h
    split at h
    · next hk =>
      obtain rfl := Option.some.inj h
      rw [hk]
      exact List.mem_cons_self
    · exact List.mem_cons_of_mem _ (ih h)

theorem lookup_of_mem (hnodup : (keys entries).Nodup) (h : (k, a) ∈ entries) :
    entries.lookup k = some a := by
  induction entries with
  | nil => cases h
  | cons e entries ih =>
    obtain ⟨hfirst, hrest⟩ := List.nodup_cons.mp hnodup
    rw [lookup_cons]
    obtain rfl | h := List.mem_cons.mp h
    · exact if_pos rfl
    · rw [if_neg (ne_of_mem_of_not_mem (key_mem h) hfirst), ih hrest h]

theorem mem_iff_lookup (hnodup : (keys entries).Nodup) :
    (k, a) ∈ entries ↔ entries.lookup k = some a :=
  ⟨lookup_of_mem hnodup, mem_of_lookup⟩

theorem eq_nil_iff : entries = [] ↔ ∀ k, entries.lookup k = none := by
  constructor
  · rintro rfl k
    rfl
  · intro h
    cases entries with
    | nil => rfl
    | cons e entries =>
      have := h e.1
      rw [lookup_cons, if_pos rfl] at this
      cases this

theorem lookup_select {c : κ × α → Option α} (hnodup : (keys entries).Nodup) :
    (select c entries).lookup k = (entries.lookup k).bind fun a => c (k, a) := by
  induction entries with
  | nil => rfl
  | cons e entries ih =>
    obtain ⟨hfirst, hrest⟩ := List.nodup_cons.mp hnodup
    rw [select_cons, lookup_cons]
    by_cases hk : k = e.1
    · obtain ⟨k', a⟩ := e
      obtain rfl := hk
      have hnone : (select c entries).lookup k = none :=
        lookup_eq_none.mpr fun h => hfirst (keys_select_sublist.subset h)
      rw [if_pos rfl, Option.bind_some]
      cases c (k, a) with
      | none => exact hnone
      | some b => rw [Option.elim_some, lookup_cons, if_pos rfl]
    · rw [if_neg hk, ← ih hrest]
      cases c e with
      | none => rfl
      | some a => rw [Option.elim_some, lookup_cons, if_neg hk]

/-! ### A new value -/

theorem lookup_put : (put k a entries).lookup k' = if k' = k then some a else entries.lookup k' := by
  induction entries with
  | nil => exact lookup_cons
  | cons e entries ih =>
    rw [put]
    split
    · next h =>
      rw [lookup_cons, lookup_cons, h]
      split <;> rfl
    · next h =>
      rw [lookup_cons, lookup_cons, ih]
      split
      · next he => rw [if_neg (he ▸ h)]
      · rfl

theorem put_of_mem (h : k ∈ keys entries) : keys (put k a entries) = keys entries := by
  induction entries with
  | nil => cases h
  | cons e entries ih =>
    rw [put]
    split
    · next he => rw [keys_cons, keys_cons, he]
    · next he =>
      rw [keys_cons, keys_cons, ih ((List.mem_cons.mp h).resolve_left (Ne.symm he))]

theorem put_of_notMem (h : k ∉ keys entries) : put k a entries = entries ++ [(k, a)] := by
  induction entries with
  | nil => rfl
  | cons e entries ih =>
    rw [keys_cons, List.mem_cons, not_or] at h
    rw [put, if_neg (Ne.symm h.1), ih h.2, List.cons_append]

theorem nodup_put (h : (keys entries).Nodup) : (keys (put k a entries)).Nodup := by
  by_cases hk : k ∈ keys entries
  · rwa [put_of_mem hk]
  · rw [put_of_notMem hk, keys_append]
    exact List.Nodup.append h (List.nodup_singleton k) (List.disjoint_singleton.mpr hk)

/-- The value that there is. -/
theorem put_lookup (h : entries.lookup k = some a) : put k a entries = entries := by
  induction entries with
  | nil => cases h
  | cons e entries ih =>
    rw [lookup_cons] at h
    rw [put]
    split at h
    · next hk =>
      obtain rfl := Option.some.inj h
      rw [if_pos hk.symm, hk]
    · next hk => rw [if_neg (Ne.symm hk), ih h]

theorem length_put :
    (put k a entries).length = entries.length + if k ∈ keys entries then 0 else 1 := by
  split
  · next hk => rw [← length_keys, put_of_mem hk, length_keys, Nat.add_zero]
  · next hk => rw [put_of_notMem hk, List.length_append, List.length_singleton]

theorem length_put_of_mem (h : k ∈ keys entries) : (put k a entries).length = entries.length := by
  rw [length_put, if_pos h, Nat.add_zero]

theorem mem_keys_put : k' ∈ keys (put k a entries) ↔ k' = k ∨ k' ∈ keys entries := by
  by_cases hk : k ∈ keys entries
  · rw [put_of_mem hk, or_iff_right_of_imp]
    rintro rfl
    exact hk
  · rw [put_of_notMem hk, keys_append, List.mem_append, or_comm, keys_cons, keys_nil,
      List.mem_singleton]

theorem mem_put (h : e ∈ put k a entries) : e = (k, a) ∨ e ∈ entries := by
  induction entries with
  | nil => exact .inl (List.mem_singleton.mp h)
  | cons e' entries ih =>
    rw [put] at h
    split at h
    · exact (List.mem_cons.mp h).imp_right (List.mem_cons_of_mem _)
    · obtain rfl | h := List.mem_cons.mp h
      · exact .inr List.mem_cons_self
      · exact (ih h).imp_right (List.mem_cons_of_mem _)

/-! ### The index of a key -/

/-- The index of the first entry with the key, else the number of entries. -/
def index (k : κ) (entries : List (κ × α)) : Nat := entries.findIdx fun e => e.1 = k

theorem index_cons : index k (e :: entries) = if e.1 = k then 0 else index k entries + 1 := by
  rw [index, List.findIdx_cons]
  by_cases h : e.1 = k
  · rw [if_pos h, decide_eq_true h, cond_true]
  · rw [if_neg h, decide_eq_false h, cond_false]
    rfl

theorem index_lt : index k entries < entries.length ↔ k ∈ keys entries := by
  rw [index, List.findIdx_lt_length, keys, List.mem_map]
  simp

theorem index_le : index k entries ≤ entries.length := List.findIdx_le_length

theorem index_of_notMem (h : k ∉ keys entries) : index k entries = entries.length :=
  Nat.le_antisymm index_le (Nat.le_of_not_lt (mt index_lt.mp h))

theorem index_concat (h : k ∉ keys entries) : index k (entries ++ [(k, a)]) = entries.length := by
  induction entries with
  | nil => rw [List.nil_append, index_cons, if_pos rfl, List.length_nil]
  | cons e entries ih =>
    rw [keys_cons, List.mem_cons, not_or] at h
    rw [List.cons_append, index_cons, if_neg (Ne.symm h.1), ih h.2, List.length_cons]

theorem getElem?_index : (entries[index k entries]?).map Prod.snd = entries.lookup k := by
  induction entries with
  | nil => rfl
  | cons e entries ih =>
    rw [index_cons, lookup_cons]
    by_cases h : e.1 = k
    · rw [if_pos h, if_pos h.symm, List.getElem?_cons_zero, Option.map_some]
    · rw [if_neg h, if_neg (Ne.symm h), List.getElem?_cons_succ, ih]

theorem key_getElem_index (h : index k entries < entries.length) : entries[index k entries].1 = k :=
  of_decide_eq_true (List.findIdx_getElem (w := h))

theorem getElem?_index_of_lookup (h : entries.lookup k = some a) :
    entries[index k entries]? = some (k, a) := by
  obtain ⟨e, he, rfl⟩ := Option.map_eq_some_iff.mp (getElem?_index.trans h)
  obtain ⟨hlt, hget⟩ := List.getElem?_eq_some_iff.mp he
  have hkey := key_getElem_index hlt
  rw [he, ← hkey, hget]

theorem set_index (h : k ∈ keys entries) :
    entries.set (index k entries) (k, a) = put k a entries := by
  induction entries with
  | nil => cases h
  | cons e entries ih =>
    rw [index_cons, put]
    split
    · rfl
    · next hne => rw [List.set_cons_succ, ih ((List.mem_cons.mp h).resolve_left (Ne.symm hne))]

/-- The index at which a value is put. -/
theorem getElem?_put : (put k a entries)[index k entries]? = some (k, a) := by
  induction entries with
  | nil => rfl
  | cons e entries ih =>
    rw [put, index_cons]
    split
    · rw [List.getElem?_cons_zero]
    · rw [List.getElem?_cons_succ, ih]

theorem set_put {b : α} : (put k a entries).set (index k entries) (k, b) = put k b entries := by
  induction entries with
  | nil => rfl
  | cons e entries ih =>
    rw [put, put, index_cons]
    split
    · rw [List.set_cons_zero]
    · rw [List.set_cons_succ, ih]

theorem lookup_removeAt_index (hnodup : (keys entries).Nodup) (h : k ∈ keys entries) :
    (removeAt (index k entries) entries).lookup k' =
      if k' = k then none else entries.lookup k' := by
  have hlt := index_lt.mpr h
  have hkey := key_getElem_index hlt
  have hperm := removeAt_perm hlt
  have hremoved := nodup_removeAt hnodup hlt
  obtain ⟨hfirst, -⟩ := List.nodup_cons.mp ((hperm.map Prod.fst).nodup_iff.mp hnodup)
  split
  · next heq =>
    rw [heq, lookup_eq_none]
    rwa [hkey] at hfirst
  · next hne =>
    ext a
    rw [← mem_iff_lookup hremoved, ← mem_iff_lookup hnodup, hperm.mem_iff, List.mem_cons,
      or_iff_right]
    rintro heq
    exact hne ((congrArg Prod.fst heq).trans hkey)

/-- Keys are distinct, so an entry is at the index of its key. -/
theorem index_of_getElem? (hnodup : (keys entries).Nodup) {i : Nat} (h : entries[i]? = some e) :
    index e.1 entries = i := by
  obtain ⟨hi, rfl⟩ := List.getElem?_eq_some_iff.mp h
  have hlt := index_lt.mpr (key_mem (List.getElem_mem hi))
  have hlt' : index entries[i].1 entries < (keys entries).length := by rwa [length_keys]
  have hi' : i < (keys entries).length := by rwa [length_keys]
  refine (@List.Nodup.getElem_inj_iff _ _ hnodup _ hlt' _ hi').mp ?_
  simp only [keys, List.getElem_map]
  exact key_getElem_index hlt

theorem lookup_rename (hnodup : (keys entries).Nodup) {i : Nat} (h : entries[i]? = some e)
    (hk : k ∉ keys entries) : (entries.set i (k, e.2)).lookup k' =
      if k' = k then some e.2 else if k' = e.1 then none else entries.lookup k' := by
  induction entries generalizing i with
  | nil => cases h
  | cons e' entries ih =>
    obtain ⟨hfirst, hrest⟩ := List.nodup_cons.mp hnodup
    rw [keys_cons, List.mem_cons, not_or] at hk
    cases i with
    | zero =>
      rw [List.getElem?_cons_zero] at h
      obtain rfl := Option.some.inj h
      rw [List.set_cons_zero, lookup_cons, lookup_cons]
      split
      · rfl
      · split
        · next heq => rw [heq, lookup_eq_none.mpr hfirst]
        · rfl
    | succ i =>
      rw [List.getElem?_cons_succ] at h
      have hne : e.1 ≠ e'.1 := ne_of_mem_of_not_mem (key_mem (List.mem_of_getElem? h)) hfirst
      rw [List.set_cons_succ, lookup_cons, lookup_cons, ih hrest h hk.2]
      by_cases hfirst' : k' = e'.1
      · rw [if_pos hfirst', if_pos hfirst', if_neg (hfirst' ▸ Ne.symm hk.1),
          if_neg (hfirst' ▸ Ne.symm hne)]
      · rw [if_neg hfirst', if_neg hfirst']

/-! ### Updates

Each entry of a second list gives a new value, from its own and the one there is, where there is
room for it. -/

def putWithin (limit : Nat) (k : κ) (a : α) (entries : List (κ × α)) : Option (List (κ × α)) :=
  if k ∈ keys entries ∨ entries.length < limit then some (put k a entries) else none

def updateAll (f : α → Option α → Option α) (limit : Nat) :
    List (κ × α) → List (κ × α) → Option (List (κ × α))
  | entries, [] => some entries
  | entries, d :: ds =>
    (f d.2 (entries.lookup d.1)).bind fun a =>
      (putWithin limit d.1 a entries).bind fun entries => updateAll f limit entries ds

variable {f : α → Option α → Option α} {limit : Nat} {ds r : List (κ × α)} {d : κ × α}

theorem putWithin_some (h : putWithin limit k a entries = some r) :
    r = put k a entries ∧ (entries.length ≤ limit → r.length ≤ limit) := by
  rw [putWithin] at h
  split at h
  · next hroom =>
    obtain rfl := Option.some.inj h
    refine ⟨rfl, fun hlength => ?_⟩
    rw [length_put]
    split
    · omega
    · next hk => exact Nat.succ_le_of_lt (hroom.resolve_left hk)
  · cases h

theorem updateAll_cons_some (h : updateAll f limit entries (d :: ds) = some r) :
    ∃ a entries', f d.2 (entries.lookup d.1) = some a ∧
      putWithin limit d.1 a entries = some entries' ∧
      updateAll f limit entries' ds = some r := by
  obtain ⟨a, ha, h⟩ := Option.bind_eq_some_iff.mp h
  obtain ⟨entries', hput, h⟩ := Option.bind_eq_some_iff.mp h
  exact ⟨a, entries', ha, hput, h⟩

theorem lookup_updateAll_of_none (h : updateAll f limit entries ds = some r)
    (hds : ds.lookup k = none) : r.lookup k = entries.lookup k := by
  induction ds generalizing entries with
  | nil => rw [Option.some.inj h]
  | cons d ds ih =>
    obtain ⟨a, entries', -, hput, h⟩ := updateAll_cons_some h
    rw [lookup_eq_none, keys_cons, List.mem_cons, not_or] at hds
    rw [ih h (lookup_eq_none.mpr hds.2), (putWithin_some hput).1, lookup_put, if_neg hds.1]

theorem lookup_updateAll (h : updateAll f limit entries ds = some r) (hnodup : (keys ds).Nodup)
    (hds : ds.lookup k = some a) : r.lookup k = f a (entries.lookup k) := by
  induction ds generalizing entries with
  | nil => cases hds
  | cons d ds ih =>
    obtain ⟨b, entries', hb, hput, h⟩ := updateAll_cons_some h
    obtain ⟨hfirst, hnodup⟩ := List.nodup_cons.mp hnodup
    obtain ⟨rfl, -⟩ := putWithin_some hput
    rw [lookup_cons] at hds
    split at hds
    · next hk =>
      obtain rfl := Option.some.inj hds
      rw [hk, lookup_updateAll_of_none h (lookup_eq_none.mpr hfirst), lookup_put, if_pos rfl, hb]
    · next hk => rw [ih h hnodup hds, lookup_put, if_neg hk]

theorem mem_updateAll (h : updateAll f limit entries ds = some r) (he : e ∈ r) :
    e ∈ entries ∨ ∃ d ∈ ds, ∃ old, f d.2 old = some e.2 := by
  induction ds generalizing entries with
  | nil =>
    obtain rfl := Option.some.inj h
    exact .inl he
  | cons d ds ih =>
    obtain ⟨a, entries', ha, hput, h⟩ := updateAll_cons_some h
    obtain ⟨rfl, -⟩ := putWithin_some hput
    obtain hentry | ⟨d', hd', hrest⟩ := ih h
    · obtain rfl | hentry := mem_put hentry
      · exact .inr ⟨d, List.mem_cons_self, _, ha⟩
      · exact .inl hentry
    · exact .inr ⟨d', List.mem_cons_of_mem _ hd', hrest⟩

theorem mem_keys_updateAll (h : updateAll f limit entries ds = some r) :
    k ∈ keys r ↔ k ∈ keys entries ∨ k ∈ keys ds := by
  induction ds generalizing entries with
  | nil => rw [Option.some.inj h, keys_nil, or_iff_left List.not_mem_nil]
  | cons d ds ih =>
    obtain ⟨a, entries', -, hput, h⟩ := updateAll_cons_some h
    rw [ih h, (putWithin_some hput).1, mem_keys_put, keys_cons, List.mem_cons, or_comm (a := k = _),
      or_assoc]

theorem nodup_updateAll (h : updateAll f limit entries ds = some r)
    (hnodup : (keys entries).Nodup) : (keys r).Nodup := by
  induction ds generalizing entries with
  | nil => rwa [← Option.some.inj h]
  | cons d ds ih =>
    obtain ⟨a, entries', -, hput, h⟩ := updateAll_cons_some h
    refine ih h ?_
    rw [(putWithin_some hput).1]
    exact nodup_put hnodup

theorem length_updateAll (h : updateAll f limit entries ds = some r)
    (hlength : entries.length ≤ limit) : r.length ≤ limit := by
  induction ds generalizing entries with
  | nil => rwa [← Option.some.inj h]
  | cons d ds ih =>
    obtain ⟨a, entries', -, hput, h⟩ := updateAll_cons_some h
    exact ih h ((putWithin_some hput).2 hlength)

theorem card_keys (hnodup : (keys entries).Nodup) : (keys entries).toFinset.card = entries.length := by
  rw [List.toFinset_card_of_nodup hnodup, length_keys]

/-- The keys of both lists fit, and each update gives a value. -/
theorem exists_updateAll (hnodup : (keys entries).Nodup) (hds : (keys ds).Nodup)
    (hf : ∀ d ∈ ds, ∃ a, f d.2 (entries.lookup d.1) = some a)
    (hroom : ((keys entries).toFinset ∪ (keys ds).toFinset).card ≤ limit) :
    ∃ r, updateAll f limit entries ds = some r := by
  induction ds generalizing entries with
  | nil => exact ⟨entries, rfl⟩
  | cons d ds ih =>
    obtain ⟨hfirst, hds⟩ := List.nodup_cons.mp hds
    obtain ⟨⟨a, ha⟩, hf⟩ := List.forall_mem_cons.mp hf
    have hput : putWithin limit d.1 a entries = some (put d.1 a entries) := by
      refine if_pos (or_iff_not_imp_left.mpr fun hnew => ?_)
      -- the new key is one more than those there are
      have hlt : (keys entries).toFinset ⊂ (keys entries).toFinset ∪ (keys (d :: ds)).toFinset := by
        refine Finset.ssubset_iff_of_subset Finset.subset_union_left |>.mpr ⟨d.1, ?_, ?_⟩
        · simp
        · simpa using hnew
      have := Finset.card_lt_card hlt
      rw [card_keys hnodup] at this
      omega
    have hkeys : (keys (put d.1 a entries)).toFinset ∪ (keys ds).toFinset =
        (keys entries).toFinset ∪ (keys (d :: ds)).toFinset := by
      ext k
      simp only [Finset.mem_union, List.mem_toFinset, mem_keys_put, keys_cons, List.mem_cons]
      tauto
    obtain ⟨r, hr⟩ := ih (nodup_put hnodup) hds
      (fun e he => by
        rw [lookup_put, if_neg (ne_of_mem_of_not_mem (key_mem he) hfirst)]
        exact hf e he)
      (hkeys ▸ hroom)
    refine ⟨r, ?_⟩
    rw [updateAll, ha, Option.bind_some, hput]
    exact hr

end Assoc
