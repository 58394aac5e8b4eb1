import MediaFramework.Lib.Ring
import Mathlib.Data.List.GetD
import Mathlib.Logic.Function.Basic

/-!
# Buffers

Stores and loads that are undefined, `none`, where they leave the buffer: a program that uses them and
never returns `none` stays inside. A buffer that is filled from the front is a front with the rest of
the old content behind it. Where buffers may overlap, an area says which address each of its positions
has.
-/

namespace Buffer

variable {α : Type*} {buffer front old data back : List α} {a : α} {i k n : Nat}

def store (buffer : List α) (i : Nat) (data : List α) : Option (List α) :=
  if i + data.length ≤ buffer.length then some (Ring.poke buffer i data) else none

def load (buffer : List α) (i n : Nat) : Option (List α) :=
  if i + n ≤ buffer.length then some (Ring.slice buffer i n) else none

theorem load_eq (h : i + n ≤ buffer.length) : load buffer i n = some (Ring.slice buffer i n) :=
  if_pos h

theorem store_eq (h : i + data.length ≤ buffer.length) :
    store buffer i data = some (Ring.poke buffer i data) :=
  if_pos h

theorem length_slice (h : i + n ≤ buffer.length) : (Ring.slice buffer i n).length = n := by
  rw [Ring.slice, List.length_take, List.length_drop]
  omega

theorem getElem?_eq_getD (d : α) (h : i < buffer.length) : buffer[i]? = some (buffer.getD i d) := by
  rw [List.getD_eq_getElem _ _ h, List.getElem?_eq_getElem h]

theorem store_between (hi : front.length = i) (hlength : old.length = data.length) :
    store (front ++ (old ++ back)) i data = some (front ++ (data ++ back)) := by
  rw [store_eq, Ring.poke_between hi hlength]
  rw [List.length_append, List.length_append]
  omega

theorem store_front (h : data.length ≤ buffer.length) :
    store buffer 0 data = some (data ++ buffer.drop data.length) := by
  rw [store_eq (by omega), Ring.poke, List.take_zero, List.nil_append, Nat.zero_add]

theorem load_between (hi : front.length = i) (hn : data.length = n) :
    load (front ++ (data ++ back)) i n = some data := by
  rw [load_eq, Ring.slice_append hi hn]
  rw [List.length_append, List.length_append]
  omega

/-- The next data of a buffer that is filled. -/
theorem store_fill (hi : front.length = i) (hk : k = data.length + n) :
    store (front ++ List.replicate k a) i data = some (front ++ data ++ List.replicate n a) := by
  rw [hk, ← List.replicate_append_replicate, store_between hi (List.length_replicate ..),
    List.append_assoc]

theorem store_fill_bind {β : Type*} {f : List α → Option β} (hi : front.length = i)
    (hk : k = data.length + n) :
    (store (front ++ List.replicate k a) i data).bind f = f (front ++ data ++ List.replicate n a) := by
  rw [store_fill hi hk, Option.bind_some]

/-- Data that is stored in a loop. -/
theorem store_each (hi : front.length = i) (hn : n ≤ data.length) (hk : n ≤ k) :
    (List.range n).foldlM (fun buffer j => data[j]?.bind fun b => store buffer (i + j) [b])
      (front ++ List.replicate k a) =
        some (front ++ data.take n ++ List.replicate (k - n) a) := by
  induction n with
  | zero => simp
  | succ n ih =>
    have hfront : (front ++ data.take n).length = i + n := by
      rw [List.length_append, List.length_take, hi, Nat.min_eq_left (by omega)]
    have hget : data[n]? = some data[n] := List.getElem?_eq_getElem hn
    have hroom : k - n = [data[n]].length + (k - (n + 1)) := by
      rw [List.length_singleton]
      omega
    have htake : data.take (n + 1) = data.take n ++ [data[n]] := by
      rw [List.take_add_one, hget, Option.toList_some]
    rw [List.range_succ, List.foldlM_append, ih (by omega) (by omega), Option.bind_eq_bind,
      Option.bind_some]
    simp only [List.foldlM_cons, List.foldlM_nil, hget, Option.bind_some]
    rw [store_fill hfront hroom, htake, ← List.append_assoc]
    rfl

end Buffer

/-! ## Areas -/

namespace Areas

variable {α β : Type*}

/-- What stands in the first `n` positions of an area. -/
def load (memory : α → β) (area : Nat → α) (n : Nat) : List β :=
  (List.range n).map fun i => memory (area i)

def store [DecidableEq α] (memory : α → β) (area : Nat → α) : List β → α → β
  | [] => memory
  | b :: bs => store (Function.update memory (area 0) b) (fun i => area (i + 1)) bs

variable {memory memory' : α → β} {area : Nat → α} {n : Nat} {bs : List β} {p : α}

@[simp]
theorem length_load (memory : α → β) (area : Nat → α) (n : Nat) : (load memory area n).length = n := by
  simp [load]

theorem load_succ (memory : α → β) (area : Nat → α) (n : Nat) :
    load memory area (n + 1) = memory (area 0) :: load memory (fun i => area (i + 1)) n := by
  simp [load, List.range_succ_eq_map, Function.comp_def]

theorem load_add (memory : α → β) (area : Nat → α) (m n : Nat) :
    load memory area (m + n) = load memory area m ++ load memory (fun i => area (m + i)) n := by
  simp [load, List.range_add, Function.comp_def]

theorem load_congr (h : ∀ i < n, memory (area i) = memory' (area i)) :
    load memory area n = load memory' area n :=
  List.map_congr_left fun i hi => h i (List.mem_range.mp hi)

variable [DecidableEq α]

/-- An address outside of the area. -/
theorem store_of_ne (h : ∀ i < bs.length, area i ≠ p) : store memory area bs p = memory p := by
  induction bs generalizing memory area with
  | nil => rfl
  | cons b bs ih =>
    have hfirst := h 0 (by simp)
    rw [store, ih fun i hi => h (i + 1) (by simpa using hi), Function.update_of_ne hfirst.symm]

/-- What has been stored is loaded, if no address stands for two positions. -/
theorem load_store (h : ∀ i < bs.length, ∀ j < bs.length, area i = area j → i = j) :
    load (store memory area bs) area bs.length = bs := by
  induction bs generalizing memory area with
  | nil => rfl
  | cons b bs ih =>
    have hrest : load (store (Function.update memory (area 0) b) (fun i => area (i + 1)) bs)
        (fun i => area (i + 1)) bs.length = bs :=
      ih fun i hi j hj heq => Nat.succ.inj (h _ (Nat.succ_lt_succ hi) _ (Nat.succ_lt_succ hj) heq)
    rw [List.length_cons, load_succ, store, hrest, store_of_ne, Function.update_self]
    intro i hi heq
    exact Nat.succ_ne_zero i (h _ (Nat.succ_lt_succ hi) 0 (by simp) heq)

end Areas
