import Mathlib.Data.List.Rotate

/-!
# Ring storage

Cells that are used over and over, by positions that are taken modulo their number. What stands
from a position on is a window, which may go on at the start of the cells.
-/

namespace Ring

variable {α : Type*} {cells data : List α} {i p k n m : Nat}

/-- `n` cells from position `p` on. -/
def window (cells : List α) (p n : Nat) : List α := (cells.rotate p).take n

/-- `n` cells from index `i` on. -/
def slice (cells : List α) (i n : Nat) : List α := (cells.drop i).take n

/-- New contents for the cells from index `i` on. -/
def poke (cells : List α) (i : Nat) (data : List α) : List α :=
  cells.take i ++ data ++ cells.drop (i + data.length)

/-- The cells between others. -/
theorem slice_append {front back : List α} (hi : front.length = i) (hn : data.length = n) :
    slice (front ++ (data ++ back)) i n = data := by
  rw [slice, List.drop_left' hi, List.take_left' hn]

theorem slice_front {back : List α} (hn : data.length = n) : slice (data ++ back) 0 n = data := by
  rw [slice, List.drop_zero, List.take_left' hn]

theorem poke_between {front old back : List α} (hi : front.length = i)
    (hlength : old.length = data.length) :
    poke (front ++ (old ++ back)) i data = front ++ (data ++ back) := by
  rw [poke, List.take_left' hi, ← List.drop_drop, List.drop_left' hi, List.drop_left' hlength,
    List.append_assoc]

theorem length_window (h : n ≤ cells.length) : (window cells p n).length = n := by
  rw [window, List.length_take, List.length_rotate, Nat.min_eq_left h]

theorem length_poke (h : i + data.length ≤ cells.length) :
    (poke cells i data).length = cells.length := by
  rw [poke, List.length_append, List.length_append, List.length_take, List.length_drop]
  omega

theorem le_length_poke (h : i ≤ cells.length) : i + data.length ≤ (poke cells i data).length := by
  rw [poke, List.length_append, List.length_append, List.length_take]
  omega

theorem window_zero (cells : List α) (p : Nat) : window cells p 0 = [] := rfl

theorem window_mod (cells : List α) (p n : Nat) :
    window cells (p % cells.length) n = window cells p n := by
  rw [window, window, List.rotate_mod]

/-- A window in two parts. -/
theorem window_add (h : n + m ≤ cells.length) :
    window cells p (n + m) = window cells p n ++ window cells (p + n) m := by
  have hn : n ≤ (cells.rotate p).length := by
    rw [List.length_rotate]
    omega
  have hm : m ≤ ((cells.rotate p).drop n).length := by
    rw [List.length_drop, List.length_rotate]
    omega
  rw [window, window, window, List.take_add, ← List.rotate_rotate,
    List.rotate_eq_drop_append_take hn, List.take_append_of_le_length hm]

theorem take_window (h : n ≤ m) : (window cells p m).take n = window cells p n := by
  rw [window, window, List.take_take, Nat.min_eq_left h]

/-- A window that does not reach the end of the cells. -/
theorem window_eq_slice (h : p % cells.length + n ≤ cells.length) :
    window cells p n = slice cells (p % cells.length) n := by
  have hle : n ≤ (cells.drop (p % cells.length)).length := by
    rw [List.length_drop]
    omega
  rw [window, slice, List.rotate_eq_drop_append_take_mod, List.take_append_of_le_length hle]

theorem rotate_poke (h : i + data.length ≤ cells.length) :
    (poke cells i data).rotate i = data ++ (cells.rotate i).drop data.length := by
  have hi : (cells.take i).length = i := by
    rw [List.length_take]
    omega
  have hdata : data.length ≤ (cells.drop i).length := by
    rw [List.length_drop]
    omega
  have hrotate := List.rotate_append_length_eq (cells.take i) (data ++ cells.drop (i + data.length))
  rw [hi] at hrotate
  rw [poke, List.append_assoc, hrotate, List.rotate_eq_drop_append_take (by omega),
    List.drop_append_of_le_length hdata, List.drop_drop, List.append_assoc]

/-- Data that is put behind a window makes it longer, as long as there is room. -/
theorem window_poke (hroom : k + data.length ≤ cells.length)
    (hend : (p + k) % cells.length + data.length ≤ cells.length) :
    window (poke cells ((p + k) % cells.length) data) p (k + data.length) =
      window cells p k ++ data := by
  have hlength := length_poke hend
  have hpoke := rotate_poke hend
  have hmod := List.rotate_mod (poke cells ((p + k) % cells.length) data) (p + k)
  rw [hlength] at hmod
  rw [hmod, List.rotate_mod, ← List.rotate_rotate, ← List.rotate_rotate] at hpoke
  have hlen : (cells.rotate p).length = cells.length := List.length_rotate _ _
  have hlen' : ((poke cells ((p + k) % cells.length) data).rotate p).length = cells.length := by
    rw [List.length_rotate, hlength]
  have hk : k ≤ (cells.rotate p).length := by omega
  have hk' : k ≤ ((poke cells ((p + k) % cells.length) data).rotate p).length := by omega
  have hdata : data.length ≤ ((cells.rotate p).drop k).length := by
    rw [List.length_drop]
    omega
  rw [List.rotate_eq_drop_append_take hk, List.rotate_eq_drop_append_take hk',
    List.drop_append_of_le_length hdata, ← List.append_assoc] at hpoke
  -- both sides have the data in front of the cells before it
  obtain ⟨hback, hfront⟩ := List.append_inj hpoke (by
    simp only [List.length_drop, List.length_append]
    omega)
  rw [window, window, List.take_add, hback, hfront, List.take_left]

/-- The position behind the last cell goes on at the first one. -/
theorem add_rest_mod (p : Nat) {C : Nat} (hpos : 0 < C) : (p + (C - p % C)) % C = 0 := by
  have hlt := Nat.mod_lt p hpos
  have hsum : p + (C - p % C) = C * (p / C + 1) := by
    have hsplit := Nat.div_add_mod p C
    rw [Nat.mul_add, Nat.mul_one]
    omega
  rw [hsum, Nat.mul_mod_right]

theorem poke_nil (cells : List α) (i : Nat) : poke cells i [] = cells := by
  rw [poke, List.append_nil, List.length_nil, Nat.add_zero, List.take_append_drop]

theorem poke_append {more : List α} (h : i + (data.length + more.length) ≤ cells.length) :
    poke (poke cells i data) (i + data.length) more = poke cells i (data ++ more) := by
  have hi : (cells.take i).length = i := by
    rw [List.length_take]
    omega
  have hfront : (cells.take i ++ data).length = i + data.length := by
    rw [List.length_append, hi]
  have htake : (poke cells i data).take (i + data.length) = cells.take i ++ data := by
    rw [poke]
    exact List.take_left' hfront
  have hdrop : (poke cells i data).drop (i + data.length + more.length) =
      cells.drop (i + (data ++ more).length) := by
    rw [poke, ← List.drop_drop, List.drop_left' hfront, List.drop_drop, List.length_append,
      Nat.add_assoc]
  rw [poke, htake, hdrop, poke, List.append_assoc (cells.take i)]

theorem set_eq_poke (b : α) (h : i < cells.length) : cells.set i b = poke cells i [b] := by
  rw [List.set_eq_take_append_cons_drop, if_pos h, poke, List.append_assoc]
  rfl

theorem poke_set (b : α) (hdata : data.length = k) (h : i + k < cells.length) :
    poke (cells.set (i + k) b) i data = poke cells i (data ++ [b]) := by
  have hi : (cells.take (i + k)).length = i + k := by
    rw [List.length_take]
    omega
  have htake : (cells.set (i + k) b).take i = cells.take i := List.take_set_of_le (by omega)
  have hdrop : (cells.set (i + k) b).drop (i + k) = b :: cells.drop (i + k + 1) := by
    rw [List.set_eq_take_append_cons_drop, if_pos h, List.drop_left' hi]
  rw [poke, poke, htake, hdata, hdrop, List.length_append, hdata, List.length_singleton,
    ← Nat.add_assoc, List.append_assoc, List.append_assoc, List.append_assoc]
  rfl

/-- A window as it is read, up to the end of the cells and then from their start. -/
theorem window_two (hn : n ≤ cells.length) (hpos : 0 < cells.length) :
    window cells p n =
      slice cells (p % cells.length) (min (cells.length - p % cells.length) n) ++
        slice cells 0 (n - min (cells.length - p % cells.length) n) := by
  have hlt := Nat.mod_lt p hpos
  have hrest := add_rest_mod p hpos
  by_cases hend : n ≤ cells.length - p % cells.length
  · rw [Nat.min_eq_right hend, Nat.sub_self, window_eq_slice (by omega)]
    exact (List.append_nil _).symm
  · have hsplit : n = cells.length - p % cells.length + (n - (cells.length - p % cells.length)) := by
      omega
    rw [Nat.min_eq_left (by omega)]
    nth_rewrite 1 [hsplit]
    rw [window_add (by omega), window_eq_slice (by omega), window_eq_slice (by rw [hrest]; omega),
      hrest]

/-- Data that is put behind a window up to the end of the cells and then at their start. -/
theorem window_poke_two (hroom : k + data.length ≤ cells.length) (hpos : 0 < cells.length) :
    let i := (p + k) % cells.length
    let cells' := poke (poke cells i (data.take (cells.length - i))) 0 (data.drop (cells.length - i))
    cells'.length = cells.length ∧
      window cells' p (k + data.length) = window cells p k ++ data := by
  intro i cells'
  have hlt : i < cells.length := Nat.mod_lt _ hpos
  have hfirst : i + (data.take (cells.length - i)).length ≤ cells.length := by
    rw [List.length_take]
    omega
  have hlength : (poke cells i (data.take (cells.length - i))).length = cells.length :=
    length_poke hfirst
  have hwindow : window (poke cells i (data.take (cells.length - i))) p
      (k + (data.take (cells.length - i)).length) =
        window cells p k ++ data.take (cells.length - i) := by
    apply window_poke _ hfirst
    rw [List.length_take]
    omega
  by_cases hend : data.length ≤ cells.length - i
  · have hnone : data.drop (cells.length - i) = [] := List.drop_of_length_le hend
    have hall : data.take (cells.length - i) = data := List.take_of_length_le hend
    have hcells : cells' = poke cells i data := by
      show poke (poke cells i _) 0 (data.drop _) = _
      rw [hnone, poke_nil, hall]
    rw [hall] at hlength hwindow
    rw [hcells]
    exact ⟨hlength, hwindow⟩
  · have htake : (data.take (cells.length - i)).length = cells.length - i := by
      rw [List.length_take]
      omega
    rw [htake] at hwindow
    have hstart : (p + (k + (cells.length - i))) %
        (poke cells i (data.take (cells.length - i))).length = 0 := by
      rw [hlength, ← Nat.add_assoc]
      exact add_rest_mod (p + k) hpos
    obtain ⟨first, heq⟩ : ∃ first, poke cells i (data.take (cells.length - i)) = first := ⟨_, rfl⟩
    have hcells : cells' = poke first 0 (data.drop (cells.length - i)) := by rw [← heq]
    rw [heq] at hlength hwindow hstart
    have hsecond : window (poke first ((p + (k + (cells.length - i))) % first.length)
          (data.drop (cells.length - i))) p
          (k + (cells.length - i) + (data.drop (cells.length - i)).length) =
        window first p (k + (cells.length - i)) ++ data.drop (cells.length - i) :=
      window_poke (by rw [List.length_drop, hlength]; omega)
        (by rw [hstart, List.length_drop, hlength]; omega)
    rw [hstart, hwindow, List.append_assoc, List.take_append_drop, List.length_drop] at hsecond
    rw [hcells]
    refine ⟨(length_poke ?_).trans hlength, ?_⟩
    · rw [List.length_drop, hlength]
      omega
    · rw [← hsecond]
      congr 1
      omega

/-- Fresh cells behind the last ones leave a window that does not reach the end. -/
theorem window_append (fresh : List α) (h : p + n ≤ cells.length) (hp : p < cells.length) :
    window (cells ++ fresh) p n = window cells p n := by
  have hlength : (cells ++ fresh).length = cells.length + fresh.length := List.length_append
  have hmod : p % (cells ++ fresh).length = p := Nat.mod_eq_of_lt (by omega)
  have hmod' : p % cells.length = p := Nat.mod_eq_of_lt hp
  rw [window_eq_slice (by rw [hmod]; omega), window_eq_slice (by rw [hmod']; omega), hmod, hmod',
    slice, slice, List.drop_append_of_le_length (by omega), List.take_append_of_le_length]
  rw [List.length_drop]
  omega

end Ring
