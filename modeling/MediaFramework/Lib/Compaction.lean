import Mathlib.Data.List.Basic

/-!
# Compaction in place

A buffer from which cells are taken out by a pass that reads each cell and writes those it keeps
where the last kept one ended.
-/

namespace Compaction

variable {α : Type*}

/-- The pass has kept `written`, has last read `prev` and still has to read `rest`. Between the two
offsets stand cells that it has read before. -/
def Compacting (buffer : List α) (writeOffset readOffset : Nat) (written : List α) (prev : α)
    (rest : List α) : Prop :=
  ∃ gap, buffer = written ++ (gap ++ rest) ∧ written.length = writeOffset ∧
    written.length + gap.length = readOffset ∧ (written ++ gap).getLast? = some prev

namespace Compacting

variable {buffer written rest : List α} {writeOffset readOffset : Nat} {prev a : α}

theorem start (h : written.getLast? = some prev) :
    Compacting (written ++ rest) written.length written.length written prev rest :=
  ⟨[], rfl, rfl, rfl, by rwa [List.append_nil]⟩

theorem take (h : Compacting buffer writeOffset readOffset written prev rest) :
    buffer.take writeOffset = written := by
  obtain ⟨gap, rfl, rfl, -, -⟩ := h
  exact List.take_left

theorem drop (h : Compacting buffer writeOffset readOffset written prev rest) :
    buffer.drop readOffset = rest := by
  obtain ⟨gap, rfl, rfl, rfl, -⟩ := h
  rw [← List.append_assoc]
  exact List.drop_left' List.length_append

theorem length (h : Compacting buffer writeOffset readOffset written prev rest) :
    buffer.length = readOffset + rest.length := by
  obtain ⟨gap, rfl, rfl, rfl, -⟩ := h
  rw [List.length_append, List.length_append, Nat.add_assoc]

theorem le (h : Compacting buffer writeOffset readOffset written prev rest) :
    writeOffset ≤ readOffset := by
  obtain ⟨gap, -, rfl, rfl, -⟩ := h
  exact Nat.le_add_right _ _

/-- The cell before the next one is still as it was read. -/
theorem getD_prev (h : Compacting buffer writeOffset readOffset written prev rest) (d : α) :
    buffer.getD (readOffset - 1) d = prev := by
  obtain ⟨gap, rfl, rfl, rfl, hlast⟩ := h
  have hlength : (written ++ gap).length = written.length + gap.length := List.length_append
  have hpos : 0 < (written ++ gap).length := by
    rw [List.length_pos_iff]
    rintro hnil
    rw [hnil] at hlast
    cases hlast
  rw [List.getLast?_eq_getElem?, hlength] at hlast
  rw [List.getD_eq_getElem?_getD, ← List.append_assoc, List.getElem?_append_left (by omega), hlast,
    Option.getD_some]

theorem getD_next (h : Compacting buffer writeOffset readOffset written prev (a :: rest)) (d : α) :
    buffer.getD readOffset d = a := by
  have hdrop := h.drop
  rw [List.getD_eq_getElem?_getD, ← Nat.add_zero readOffset, ← List.getElem?_drop, hdrop]
  rfl

/-- The next cell is taken out. -/
theorem skip (h : Compacting buffer writeOffset readOffset written prev (a :: rest)) :
    Compacting buffer writeOffset (readOffset + 1) written a rest := by
  obtain ⟨gap, hbuffer, hwrite, hread, -⟩ := h
  refine ⟨gap ++ [a], ?_, hwrite, ?_, ?_⟩
  · rw [hbuffer, List.append_assoc, List.singleton_append]
  · rw [List.length_append, List.length_singleton]
    omega
  · rw [← List.append_assoc, List.getLast?_concat]

/-- The next cell is kept. -/
theorem move (h : Compacting buffer writeOffset readOffset written prev (a :: rest)) :
    Compacting (buffer.set writeOffset a) (writeOffset + 1) (readOffset + 1) (written ++ [a]) a
      rest := by
  obtain ⟨gap, rfl, rfl, hread, -⟩ := h
  refine ⟨(gap ++ [a]).tail, ?_, List.length_append, ?_, ?_⟩
  · rw [List.set_append_right _ _ (Nat.le_refl _), Nat.sub_self]
    cases gap with
    | nil => simp
    | cons g gap => simp
  · simp only [List.length_append, List.length_tail, List.length_singleton]
    omega
  · cases gap with
    | nil => simp
    | cons g gap =>
      show (written ++ [a] ++ (gap ++ [a])).getLast? = some a
      rw [← List.append_assoc, List.getLast?_concat]

/-- What was not read moves up to what was kept. -/
theorem close (h : Compacting buffer writeOffset readOffset written prev rest) :
    ∃ junk, buffer.take writeOffset ++ rest ++ buffer.drop (writeOffset + rest.length) =
        written ++ (rest ++ junk) ∧ junk.length = readOffset - writeOffset := by
  have hlength := h.length
  have hle := h.le
  refine ⟨buffer.drop (writeOffset + rest.length), ?_, ?_⟩
  · rw [h.take, List.append_assoc]
  · rw [List.length_drop]
    omega

end Compacting

end Compaction
