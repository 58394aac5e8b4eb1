import Mathlib.Data.List.Basic
import Mathlib.Algebra.Ring.Nat
import Mathlib.Data.List.Infix

/-!
# Segments and blocks

The elements of a sequence from a position on, and the whole blocks at the front of a list.
-/

namespace Blocks

variable {α β : Type*}

/-- `n` elements from position `p` on. -/
def segment (f : Nat → α) (p n : Nat) : List α := (List.range n).map fun i => f (p + i)

@[simp]
theorem length_segment (f : Nat → α) (p n : Nat) : (segment f p n).length = n := by
  rw [segment, List.length_map, List.length_range]

theorem segment_add (f : Nat → α) (p n m : Nat) :
    segment f p (n + m) = segment f p n ++ segment f (p + n) m := by
  rw [segment, segment, segment, List.range_add, List.map_append, List.map_map]
  congr 1
  apply List.map_congr_left
  intro i _
  show f (p + (n + i)) = _
  rw [Nat.add_assoc]

theorem map_segment (g : α → β) (f : Nat → α) (p n : Nat) :
    (segment f p n).map g = segment (fun i => g (f i)) p n := by
  rw [segment, segment, List.map_map]
  rfl

theorem take_segment (f : Nat → α) (p : Nat) {k n : Nat} (h : k ≤ n) :
    (segment f p n).take k = segment f p k := by
  obtain ⟨m, rfl⟩ := Nat.exists_eq_add_of_le h
  rw [segment_add, List.take_left' (length_segment f p k)]

theorem drop_segment (f : Nat → α) (p : Nat) {k n : Nat} (h : k ≤ n) :
    (segment f p n).drop k = segment f (p + k) (n - k) := by
  obtain ⟨m, rfl⟩ := Nat.exists_eq_add_of_le h
  rw [segment_add, List.drop_left' (length_segment f p k), Nat.add_sub_cancel_left]

/-- A segment of a list, whatever stands behind the list. -/
theorem segment_getD (xs : List α) (after : Nat → α) {p n : Nat} (h : p + n ≤ xs.length) :
    segment (fun i => xs.getD i (after i)) p n = (xs.drop p).take n := by
  apply List.ext_getElem
  · rw [length_segment, List.length_take, List.length_drop]
    omega
  · intro i hi hi'
    rw [length_segment] at hi
    have hlt : p + i < xs.length := by omega
    simp [segment, List.getElem?_eq_getElem hlt]

/-! ## Blocks at the front -/

variable {m k n : Nat} {xs block : List α}

/-- The first `k` blocks of `m` elements. -/
def front (m : Nat) : Nat → List α → List (List α)
  | 0, _ => []
  | k + 1, xs => xs.take m :: front m k (xs.drop m)

theorem flatten_front (m k : Nat) (xs : List α) : (front m k xs).flatten = xs.take (k * m) := by
  induction k generalizing xs with
  | zero => rw [Nat.zero_mul, List.take_zero]; rfl
  | succ k ih => rw [front, List.flatten_cons, ih, Nat.succ_mul, Nat.add_comm, List.take_add]

theorem length_of_mem_front (h : k * m ≤ xs.length) (hblock : block ∈ front m k xs) :
    block.length = m := by
  induction k generalizing xs with
  | zero => cases hblock
  | succ k ih =>
    rw [Nat.succ_mul] at h
    obtain rfl | hblock := List.mem_cons.mp hblock
    · exact List.length_take_of_le (by omega)
    · refine ih ?_ hblock
      rw [List.length_drop]
      omega

theorem front_segment (f : Nat → α) (p m k : Nat) :
    front m k (segment f p (k * m)) = (List.range k).map fun i => segment f (p + i * m) m := by
  induction k generalizing p with
  | zero => rfl
  | succ k ih =>
    have hle : m ≤ (k + 1) * m := Nat.le_mul_of_pos_left m (Nat.succ_pos k)
    have hrest : (k + 1) * m - m = k * m := by rw [Nat.succ_mul, Nat.add_sub_cancel]
    rw [front, take_segment f p hle, drop_segment f p hle, hrest, ih, List.range_succ_eq_map,
      List.map_cons, List.map_map, Nat.zero_mul, Nat.add_zero]
    congr 1
    apply List.map_congr_left
    intro i _
    show _ = segment f (p + (i + 1) * m) m
    rw [Nat.succ_mul, Nat.add_comm (i * m), Nat.add_assoc]

end Blocks

/-!
### Windows of a content

A part of a content that is held from a position on, as caches hold it.
-/

variable {α : Type*}

/-- What is held is the content from `o` on. -/
def Window (content : List α) (o : Nat) (held : List α) : Prop := held <+: content.drop o

namespace Window

variable {content held more : List α} {o n size : Nat}

theorem nil (content : List α) (o : Nat) : Window content o [] := List.nil_prefix

theorem append (h : Window content o held) (hmore : Window content (o + held.length) more) :
    Window content o (held ++ more) := by
  obtain ⟨rest, hrest⟩ := h
  rw [Window, ← List.drop_drop, ← hrest, List.drop_left] at hmore
  obtain ⟨after, rfl⟩ := hmore
  rw [Window, ← hrest, ← List.append_assoc]
  exact List.prefix_append _ _

theorem left {front : List α} (h : Window content o (front ++ held)) : Window content o front :=
  (List.prefix_append front held).trans h

/-- What is behind a front that is given up. -/
theorem right {front : List α} (h : Window content o (front ++ held)) :
    Window content (o + front.length) held := by
  obtain ⟨rest, hrest⟩ := h
  rw [Window, ← List.drop_drop, ← hrest, List.append_assoc, List.drop_left]
  exact List.prefix_append _ _

theorem eq_take (h : Window content o held) : held = (content.drop o).take held.length :=
  List.prefix_iff_eq_take.mp h

theorem length_le (h : Window content o held) : held.length ≤ content.length - o := by
  have hle := List.IsPrefix.length_le h
  rwa [List.length_drop] at hle

/-- A read that is within the window. -/
theorem slice (h : Window content o held) (hle : n + size ≤ held.length) :
    (held.drop n).take size = (content.drop (o + n)).take size := by
  obtain ⟨rest, hrest⟩ := h
  rw [← List.drop_drop, ← hrest, List.drop_append_of_le_length (by omega),
    List.take_append_of_le_length (by rw [List.length_drop]; omega)]

end Window
