import Mathlib.Order.Lattice
import Mathlib.Data.List.Basic
import Mathlib.Algebra.Ring.Nat
import Mathlib.Data.Finset.Card

/-!
# Vectors ordered by a key

A list of entries with increasing keys, as a map.
-/

structure KeyedVector (κ α : Type*) [LinearOrder κ] where
  entries : List (κ × α)
  sorted : (entries.map Prod.fst).Pairwise (· < ·)
  deriving DecidableEq

namespace KeyedVector

variable {κ α : Type*} [LinearOrder κ]

def empty : KeyedVector κ α := ⟨[], .nil⟩

/-! ### Entries -/

def lookup (k : κ) : List (κ × α) → Option α
  | [] => none
  | e :: entries => if e.1 = k then some e.2 else lookup k entries

/-- An entry takes the place of the one with the same key, or goes to its place. -/
def place (k : κ) (a : α) : List (κ × α) → List (κ × α)
  | [] => [(k, a)]
  | e :: entries =>
    if e.1 = k then (k, a) :: entries
    else if k < e.1 then (k, a) :: e :: entries
    else e :: place k a entries

/-- The first value that satisfies `p` changes. -/
def editFirst (p : α → Bool) (g : α → α) : List (κ × α) → List (κ × α)
  | [] => []
  | e :: entries => if p e.2 then (e.1, g e.2) :: entries else e :: editFirst p g entries

variable {k k' : κ} {a a' : α} {entries : List (κ × α)}

theorem lookup_eq_none (h : ∀ e ∈ entries, k < e.1) : lookup k entries = none := by
  induction entries with
  | nil => rfl
  | cons e entries ih =>
    obtain ⟨he, hentries⟩ := List.forall_mem_cons.mp h
    rw [lookup, if_neg (ne_of_gt he), ih hentries]

theorem mem_of_lookup (h : lookup k entries = some a) : (k, a) ∈ entries := by
  induction entries with
  | nil => cases h
  | cons e entries ih =>
    rw [lookup] at h
    split at h
    · next hk =>
      obtain rfl := Option.some.inj h
      rw [← hk]
      exact List.mem_cons_self
    · exact List.mem_cons_of_mem _ (ih h)

theorem lookup_of_mem (hsorted : (entries.map Prod.fst).Pairwise (· < ·)) (h : (k, a) ∈ entries) :
    lookup k entries = some a := by
  induction entries with
  | nil => cases h
  | cons e entries ih =>
    obtain ⟨hfirst, hrest⟩ := List.pairwise_cons.mp hsorted
    rw [lookup]
    obtain rfl | h := List.mem_cons.mp h
    · exact if_pos rfl
    · rw [if_neg (ne_of_lt (hfirst k (List.mem_map_of_mem h))), ih hrest h]

theorem mem_place {e : κ × α} (h : e ∈ place k a entries) : e = (k, a) ∨ e ∈ entries := by
  induction entries with
  | nil => exact .inl (List.mem_singleton.mp h)
  | cons e' entries ih =>
    rw [place] at h
    split at h
    · obtain h | h := List.mem_cons.mp h
      · exact .inl h
      · exact .inr (List.mem_cons_of_mem _ h)
    · split at h
      · exact List.mem_cons.mp h
      · obtain h | h := List.mem_cons.mp h
        · exact .inr (h ▸ List.mem_cons_self)
        · exact (ih h).imp_right (List.mem_cons_of_mem _)

theorem place_sorted (h : (entries.map Prod.fst).Pairwise (· < ·)) :
    ((place k a entries).map Prod.fst).Pairwise (· < ·) := by
  induction entries with
  | nil => exact List.pairwise_singleton _ _
  | cons e entries ih =>
    obtain ⟨hfirst, hrest⟩ := List.pairwise_cons.mp h
    rw [place]
    split
    · next hk =>
      rw [← hk]
      exact h
    · next hne =>
      split
      · next hlt =>
        refine List.pairwise_cons.mpr ⟨?_, h⟩
        intro x hx
        obtain rfl | hx := List.mem_cons.mp hx
        · exact hlt
        · exact lt_trans hlt (hfirst x hx)
      · next hge =>
        have hgt : e.1 < k := lt_of_le_of_ne (not_lt.mp hge) hne
        refine List.pairwise_cons.mpr ⟨?_, ih hrest⟩
        intro x hx
        obtain ⟨y, hy, rfl⟩ := List.mem_map.mp hx
        obtain rfl | hy := mem_place hy
        · exact hgt
        · exact hfirst _ (List.mem_map_of_mem hy)

theorem lookup_place (k k' : κ) (a : α) (entries : List (κ × α)) :
    lookup k' (place k a entries) = if k' = k then some a else lookup k' entries := by
  induction entries with
  | nil =>
    rw [place, lookup]
    exact ite_congr (propext eq_comm) (fun _ => rfl) (fun _ => rfl)
  | cons e entries ih =>
    rw [place]
    split
    · next hk =>
      subst hk
      simp only [lookup, eq_comm (a := k')]
      split <;> rfl
    · next hne =>
      split
      · rw [lookup]
        exact ite_congr (propext eq_comm) (fun _ => rfl) (fun _ => rfl)
      · rw [lookup, lookup, ih]
        by_cases hk : k' = k
        · rw [if_pos hk, if_neg (fun he => hne (he.trans hk)), if_pos hk]
        · rw [if_neg hk, if_neg hk]

theorem lookup_filter (k k' : κ) (entries : List (κ × α)) :
    lookup k' (entries.filter fun e => e.1 ≠ k) = if k' = k then none else lookup k' entries := by
  induction entries with
  | nil => rw [List.filter_nil, lookup, ite_self]
  | cons e entries ih =>
    by_cases he : e.1 = k
    · rw [List.filter_cons_of_neg (by simpa using he), ih, lookup]
      by_cases hk : k' = k
      · rw [if_pos hk, if_pos hk]
      · rw [if_neg hk, if_neg hk, if_neg (fun h => hk (h.symm.trans he))]
    · rw [List.filter_cons_of_pos (by simpa using he), lookup, lookup, ih]
      by_cases hk : k' = k
      · rw [if_pos hk, if_pos hk, if_neg (fun h => he (h.trans hk))]
      · rw [if_neg hk, if_neg hk]

omit [LinearOrder κ] in
theorem editFirst_keys (p : α → Bool) (g : α → α) (entries : List (κ × α)) :
    (editFirst p g entries).map Prod.fst = entries.map Prod.fst := by
  induction entries with
  | nil => rfl
  | cons e entries ih =>
    rw [editFirst]
    split
    · rfl
    · rw [List.map_cons, ih, List.map_cons]

omit [LinearOrder κ] in
theorem modify_keys (i : Nat) (f : α → α) (entries : List (κ × α)) :
    (entries.modify i fun e => (e.1, f e.2)).map Prod.fst = entries.map Prod.fst := by
  induction entries generalizing i with
  | nil => cases i <;> rfl
  | cons e entries ih =>
    cases i with
    | zero => rfl
    | succ i => exact congrArg (e.1 :: ·) (ih i)

omit [LinearOrder κ] in
theorem modify_values (i : Nat) (f : α → α) (entries : List (κ × α)) :
    (entries.modify i fun e => (e.1, f e.2)).map Prod.snd = (entries.map Prod.snd).modify i f := by
  induction entries generalizing i with
  | nil => cases i <;> rfl
  | cons e entries ih =>
    cases i with
    | zero => rfl
    | succ i => exact congrArg (e.2 :: ·) (ih i)

/-! ### Operations -/

def find? (m : KeyedVector κ α) (k : κ) : Option α := lookup k m.entries

def set (m : KeyedVector κ α) (k : κ) (a : α) : KeyedVector κ α :=
  ⟨place k a m.entries, place_sorted m.sorted⟩

def remove (m : KeyedVector κ α) (k : κ) : KeyedVector κ α :=
  ⟨m.entries.filter fun e => e.1 ≠ k, m.sorted.sublist (List.filter_sublist.map Prod.fst)⟩

/-- The value of a key changes where there is one. -/
def alter (m : KeyedVector κ α) (k : κ) (f : α → α) : KeyedVector κ α :=
  (m.find? k).elim m fun a => m.set k (f a)

def indexOfKey (m : KeyedVector κ α) (k : κ) : Option Nat := m.entries.findIdx? fun e => e.1 = k

def valueAt (m : KeyedVector κ α) (i : Nat) : Option α := m.entries[i]?.map Prod.snd

def size (m : KeyedVector κ α) : Nat := m.entries.length

def modifyFirst (m : KeyedVector κ α) (p : α → Bool) (g : α → α) : KeyedVector κ α :=
  ⟨editFirst p g m.entries, (editFirst_keys p g m.entries).symm ▸ m.sorted⟩

/-- The value at a position changes. -/
def modifyAt (m : KeyedVector κ α) (i : Nat) (f : α → α) : KeyedVector κ α :=
  ⟨m.entries.modify i fun e => (e.1, f e.2), (modify_keys i f m.entries).symm ▸ m.sorted⟩

def mapValues (m : KeyedVector κ α) (f : α → α) : KeyedVector κ α :=
  ⟨m.entries.map fun e => (e.1, f e.2), by
    rw [List.map_map]
    exact m.sorted⟩

/-- The values change by what stands at their keys. -/
def mapEntries (m : KeyedVector κ α) (f : κ → α → α) : KeyedVector κ α :=
  ⟨m.entries.map fun e => (e.1, f e.1 e.2), by
    rw [List.map_map]
    exact m.sorted⟩

def values (m : KeyedVector κ α) : List α := m.entries.map Prod.snd

theorem find?_eq_some (m : KeyedVector κ α) : m.find? k = some a ↔ (k, a) ∈ m.entries :=
  ⟨mem_of_lookup, lookup_of_mem m.sorted⟩

omit [LinearOrder κ] in
/-- An element that is told by what `f` gives for it stands at one place. -/
theorem split_unique {β : Type*} {f : β → κ} {l before after before' after' : List β} {b b' : β}
    (hnodup : (l.map f).Nodup) (h : l = before ++ b :: after) (h' : l = before' ++ b' :: after')
    (hsame : f b = f b') : before = before' ∧ b = b' ∧ after = after' := by
  have hget : ∀ front (c : β) back, l = front ++ c :: back → (l.map f)[front.length]? = some (f c) := by
    rintro front c back rfl
    rw [List.getElem?_map, List.getElem?_append_right (Nat.le_refl _), Nat.sub_self]
    rfl
  have hlt : before.length < (l.map f).length := by
    rw [h, List.length_map, List.length_append, List.length_cons]
    omega
  have hlength : before.length = before'.length := by
    refine (List.getElem?_inj hlt hnodup).mp ?_
    rw [hget _ _ _ h, hget _ _ _ h', hsame]
  obtain ⟨hfront, hback⟩ := List.append_inj (h.symm.trans h') hlength
  obtain ⟨hb, hafter⟩ := List.cons.inj hback
  exact ⟨hfront, hb, hafter⟩

theorem nodup_keys (m : KeyedVector κ α) : (m.entries.map Prod.fst).Nodup :=
  m.sorted.imp fun hlt => ne_of_lt hlt

theorem mem_values (m : KeyedVector κ α) : a ∈ m.values ↔ ∃ k, m.find? k = some a := by
  constructor
  · intro h
    obtain ⟨e, he, rfl⟩ := List.mem_map.mp h
    exact ⟨e.1, m.find?_eq_some.mpr he⟩
  · rintro ⟨k, h⟩
    exact List.mem_map_of_mem (f := Prod.snd) (m.find?_eq_some.mp h)

theorem isSome_find? (m : KeyedVector κ α) :
    (m.find? k).isSome = true ↔ k ∈ m.entries.map Prod.fst := by
  rw [Option.isSome_iff_exists, List.mem_map]
  constructor
  · rintro ⟨a, h⟩
    exact ⟨(k, a), m.find?_eq_some.mp h, rfl⟩
  · rintro ⟨⟨k, a⟩, h, rfl⟩
    exact ⟨a, m.find?_eq_some.mpr h⟩

theorem isSome_find?_modifyAt (m : KeyedVector κ α) (i : Nat) (f : α → α) (k : κ) :
    ((m.modifyAt i f).find? k).isSome = (m.find? k).isSome := by
  rw [Bool.eq_iff_iff, isSome_find?, isSome_find?, modifyAt, modify_keys]

theorem isSome_find?_mapValues (m : KeyedVector κ α) (f : α → α) (k : κ) :
    ((m.mapValues f).find? k).isSome = (m.find? k).isSome := by
  rw [Bool.eq_iff_iff, isSome_find?, isSome_find?, mapValues, List.map_map]
  rfl

theorem values_modifyAt (m : KeyedVector κ α) (i : Nat) (f : α → α) :
    (m.modifyAt i f).values = m.values.modify i f := modify_values i f m.entries

theorem modifyAt_eq_self {m : KeyedVector κ α} {i : Nat} {f : α → α} (h : m.values[i]? = some a)
    (hf : f a = a) : m.modifyAt i f = m := by
  obtain ⟨entries, sorted⟩ := m
  have hentries : ∀ (entries : List (κ × α)) (i : Nat), (entries.map Prod.snd)[i]? = some a →
      (entries.modify i fun e => (e.1, f e.2)) = entries := by
    intro entries
    induction entries with
    | nil => exact fun i h => nomatch h
    | cons e entries ih =>
      intro i h
      cases i with
      | zero =>
        obtain rfl : e.2 = a := Option.some.inj h
        exact congrArg (fun v => (e.1, v) :: entries) hf
      | succ i => exact congrArg (e :: ·) (ih i h)
  rw [modifyAt]
  congr 1
  exact hentries entries i h

theorem values_mapValues (m : KeyedVector κ α) (f : α → α) : (m.mapValues f).values = m.values.map f := by
  rw [values, mapValues, values, List.map_map, List.map_map]
  rfl

@[simp]
theorem find?_empty (k : κ) : (empty : KeyedVector κ α).find? k = none := rfl

theorem find?_set (m : KeyedVector κ α) (k k' : κ) (a : α) :
    (m.set k a).find? k' = if k' = k then some a else m.find? k' :=
  lookup_place k k' a m.entries

theorem isSome_find?_set {m : KeyedVector κ α} {k' : κ} (h : (m.find? k').isSome) (k : κ) (a : α) :
    ((m.set k a).find? k').isSome := by
  rw [find?_set]
  split
  · rfl
  · exact h

theorem find?_remove (m : KeyedVector κ α) (k k' : κ) :
    (m.remove k).find? k' = if k' = k then none else m.find? k' :=
  lookup_filter k k' m.entries

theorem find?_alter (m : KeyedVector κ α) (k k' : κ) (f : α → α) :
    (m.alter k f).find? k' = if k' = k then (m.find? k).map f else m.find? k' := by
  rw [alter]
  cases hk : m.find? k with
  | none =>
    show m.find? k' = _
    split
    · next heq => rw [heq, hk]; rfl
    · rfl
  | some a => exact m.find?_set k k' (f a)

theorem find?_alter_eq_none (m : KeyedVector κ α) (k k' : κ) (f : α → α) :
    (m.alter k f).find? k' = none ↔ m.find? k' = none := by
  rw [find?_alter]
  split
  · next heq => rw [heq, Option.map_eq_none_iff]
  · rfl

/-- A vector is a map. -/
theorem ext_find? {m m' : KeyedVector κ α} (h : ∀ k, m.find? k = m'.find? k) : m = m' := by
  have hnodup : ∀ m : KeyedVector κ α, m.entries.Nodup := by
    intro m
    refine (List.pairwise_map.mp m.sorted).imp fun hlt heq => ?_
    rw [heq] at hlt
    exact lt_irrefl _ hlt
  have hmem : ∀ e, e ∈ m.entries ↔ e ∈ m'.entries := by
    rintro ⟨k, a⟩
    rw [← find?_eq_some, ← find?_eq_some, h]
  have hperm : m.entries.Perm m'.entries :=
    (List.perm_ext_iff_of_nodup (hnodup m) (hnodup m')).mpr hmem
  obtain ⟨entries, sorted⟩ := m
  obtain ⟨entries', sorted'⟩ := m'
  congr 1
  refine hperm.eq_of_pairwise ?_ (List.pairwise_map.mp sorted) (List.pairwise_map.mp sorted')
  intro e e' _ _ hlt hlt'
  exact absurd hlt (not_lt_of_gt hlt')

theorem valueAt_eq_some (m : KeyedVector κ α) {i : Nat} (h : m.valueAt i = some a) :
    ∃ k, m.find? k = some a := by
  obtain ⟨e, he, rfl⟩ := Option.map_eq_some_iff.mp h
  exact ⟨e.1, m.find?_eq_some.mpr (List.mem_of_getElem? he)⟩

theorem valueAt_of_lt (m : KeyedVector κ α) {i : Nat} (h : i < m.size) :
    ∃ a, m.valueAt i = some a := by
  rw [size] at h
  exact ⟨m.entries[i].2, by rw [valueAt, List.getElem?_eq_getElem h]; rfl⟩

theorem length_place (hsorted : (entries.map Prod.fst).Pairwise (· < ·))
    (h : lookup k entries = some a') : (place k a entries).length = entries.length := by
  induction entries with
  | nil => cases h
  | cons e entries ih =>
    obtain ⟨hfirst, hrest⟩ := List.pairwise_cons.mp hsorted
    rw [lookup] at h
    rw [place]
    split at h
    · next heq =>
      rw [if_pos heq]
      rfl
    · next hne =>
      rw [if_neg hne]
      split
      · next hlt =>
        rw [lookup_eq_none fun x hx => lt_trans hlt (hfirst _ (List.mem_map_of_mem hx))] at h
        cases h
      · rw [List.length_cons, ih hrest h, List.length_cons]

theorem length_place_new (h : lookup k entries = none) :
    (place k a entries).length = entries.length + 1 := by
  induction entries with
  | nil => rfl
  | cons e entries ih =>
    rw [lookup] at h
    rw [place]
    split at h
    · cases h
    · next hne =>
      rw [if_neg hne]
      split
      · rfl
      · rw [List.length_cons, ih h, List.length_cons]

theorem place_eq_self (hsorted : (entries.map Prod.fst).Pairwise (· < ·))
    (h : lookup k entries = some a) : place k a entries = entries := by
  induction entries with
  | nil => cases h
  | cons e entries ih =>
    obtain ⟨hfirst, hrest⟩ := List.pairwise_cons.mp hsorted
    rw [lookup] at h
    rw [place]
    split at h
    · next heq =>
      obtain rfl := Option.some.inj h
      rw [if_pos heq, ← heq]
    · next hne =>
      have hlt : e.1 < k := hfirst k (List.mem_map_of_mem (mem_of_lookup h))
      rw [if_neg hne, if_neg (not_lt_of_gt hlt), ih hrest h]

theorem set_eq_self {m : KeyedVector κ α} (h : m.find? k = some a) : m.set k a = m := by
  obtain ⟨entries, sorted⟩ := m
  rw [set]
  congr 1
  exact place_eq_self sorted h

theorem size_set_new (m : KeyedVector κ α) (h : m.find? k = none) : (m.set k a).size = m.size + 1 :=
  length_place_new h

theorem size_set (m : KeyedVector κ α) (h : m.find? k = some a') : (m.set k a).size = m.size :=
  length_place m.sorted h

/-- What a measure of the values adds up to. -/
def total (f : α → Nat) (m : KeyedVector κ α) : Nat := (m.values.map f).sum

theorem sum_place (f : α → Nat) (h : (entries.map Prod.fst).Pairwise (· < ·)) :
    (((place k a entries).map Prod.snd).map f).sum + ((lookup k entries).map f).getD 0 =
      ((entries.map Prod.snd).map f).sum + f a := by
  induction entries with
  | nil => exact Nat.add_comm _ _
  | cons e entries ih =>
    obtain ⟨hfirst, hrest⟩ := List.pairwise_cons.mp h
    rw [place, lookup]
    split
    · simp only [List.map_cons, List.sum_cons, Option.map_some, Option.getD_some]
      omega
    · next hne =>
      split
      · next hlt =>
        rw [lookup_eq_none]
        · simp only [List.map_cons, List.sum_cons, Option.map_none, Option.getD_none]
          omega
        · intro x hx
          exact lt_trans hlt (hfirst _ (List.mem_map_of_mem hx))
      · have hih := ih hrest
        simp only [List.map_cons, List.sum_cons]
        omega

theorem total_set (f : α → Nat) (m : KeyedVector κ α) (k : κ) (a : α) :
    (m.set k a).total f + ((m.find? k).map f).getD 0 = m.total f + f a :=
  sum_place f m.sorted

omit [LinearOrder κ] in
theorem sum_editFirst (f : α → Nat) (p : α → Bool) (g : α → α) (entries : List (κ × α)) :
    (((editFirst p g entries).map Prod.snd).map f).sum +
        (((entries.map Prod.snd).find? p).map f).getD 0 =
      ((entries.map Prod.snd).map f).sum +
        (((entries.map Prod.snd).find? p).map fun a => f (g a)).getD 0 := by
  induction entries with
  | nil => rfl
  | cons e entries ih =>
    rw [editFirst, List.map_cons, List.find?_cons]
    cases hp : p e.2 with
    | true =>
      rw [if_pos rfl]
      simp only [List.map_cons, List.sum_cons, Option.map_some, Option.getD_some]
      omega
    | false =>
      rw [if_neg Bool.false_ne_true]
      simp only [List.map_cons, List.sum_cons]
      omega

theorem total_modifyFirst (f : α → Nat) (m : KeyedVector κ α) (p : α → Bool) (g : α → α) :
    (m.modifyFirst p g).total f + ((m.values.find? p).map f).getD 0 =
      m.total f + ((m.values.find? p).map fun a => f (g a)).getD 0 :=
  sum_editFirst f p g m.entries

omit [LinearOrder κ] in
theorem sum_filter [DecidableEq κ] (f : α → Nat) (h : (entries.map Prod.fst).Nodup) :
    (((entries.filter fun e => e.1 ≠ k).map Prod.snd).map f).sum +
        (((entries.find? fun e => e.1 = k).map Prod.snd).map f).getD 0 =
      ((entries.map Prod.snd).map f).sum := by
  induction entries with
  | nil => rfl
  | cons e entries ih =>
    obtain ⟨hfirst, hrest⟩ := List.nodup_cons.mp h
    by_cases he : e.1 = k
    · have hall : (entries.filter fun e => e.1 ≠ k) = entries := by
        refine List.filter_eq_self.mpr fun x hx => ?_
        have hne : x.1 ≠ k := fun hx' => hfirst (List.mem_map.mpr ⟨x, hx, hx'.trans he.symm⟩)
        exact decide_eq_true hne
      rw [List.filter_cons_of_neg (by simpa using he), List.find?_cons_of_pos (by simpa using he), hall]
      simp only [List.map_cons, List.sum_cons, Option.map_some, Option.getD_some]
      omega
    · have hsum := ih hrest
      rw [List.filter_cons_of_pos (by simpa using he), List.find?_cons_of_neg (by simpa using he)]
      simp only [List.map_cons, List.sum_cons]
      omega

theorem lookup_eq_find? (k : κ) (entries : List (κ × α)) :
    lookup k entries = (entries.find? fun e => e.1 = k).map Prod.snd := by
  induction entries with
  | nil => rfl
  | cons e entries ih =>
    rw [lookup]
    split
    · next he =>
      rw [List.find?_cons_of_pos (by simpa using he)]
      rfl
    · next he => rw [List.find?_cons_of_neg (by simpa using he), ih]

theorem total_remove (f : α → Nat) (m : KeyedVector κ α) (k : κ) :
    (m.remove k).total f + ((m.find? k).map f).getD 0 = m.total f := by
  rw [find?, lookup_eq_find?]
  exact sum_filter f m.nodup_keys

theorem find?_mapEntries (m : KeyedVector κ α) (f : κ → α → α) (k : κ) :
    (m.mapEntries f).find? k = (m.find? k).map (f k) := by
  rw [find?, find?, mapEntries]
  dsimp only
  induction m.entries with
  | nil => rfl
  | cons e entries ih =>
    rw [List.map_cons, lookup, lookup]
    dsimp only
    split
    · next he => rw [Option.map_some, he]
    · exact ih

/-- A measure that the change leaves alone. -/
theorem total_mapEntries {g : α → Nat} {f : κ → α → α} (h : ∀ k a, g (f k a) = g a)
    (m : KeyedVector κ α) : (m.mapEntries f).total g = m.total g := by
  rw [total, total, values, values, mapEntries]
  dsimp only
  simp only [List.map_map, Function.comp_def, h]

/-! ### Keys -/

def keys (m : KeyedVector κ α) : Finset κ := (m.entries.map Prod.fst).toFinset

theorem mem_keys (m : KeyedVector κ α) (k : κ) : k ∈ m.keys ↔ m.find? k ≠ none := by
  rw [keys, List.mem_toFinset, ← m.isSome_find?, Option.isSome_iff_ne_none]

@[simp] theorem keys_set (m : KeyedVector κ α) (k : κ) (a : α) :
    (m.set k a).keys = insert k m.keys := by
  ext k'
  rw [mem_keys, Finset.mem_insert, mem_keys, find?_set]
  split
  · next heq => simp [heq]
  · next hne => simp [hne]

@[simp] theorem keys_remove (m : KeyedVector κ α) (k : κ) : (m.remove k).keys = m.keys.erase k := by
  ext k'
  rw [mem_keys, Finset.mem_erase, mem_keys, find?_remove]
  split
  · next heq => simp [heq]
  · next hne => simp [hne]

@[simp] theorem keys_mapEntries (m : KeyedVector κ α) (f : κ → α → α) :
    (m.mapEntries f).keys = m.keys := by
  ext k
  rw [mem_keys, mem_keys, find?_mapEntries, ne_eq, Option.map_eq_none_iff]

/-- The entries whose keys have a property. -/
theorem length_filter (m : KeyedVector κ α) (p : κ → Bool) :
    (m.entries.filter fun e => p e.1).length = (m.keys.filter fun k => p k = true).card := by
  have hkeys : ((m.entries.map Prod.fst).filter p).length =
      (m.keys.filter fun k => p k = true).card := by
    rw [keys, ← List.toFinset_filter, List.toFinset_card_of_nodup (m.nodup_keys.filter p)]
  rw [← hkeys, List.filter_map, List.length_map]
  rfl

end KeyedVector
