import Mathlib.Data.List.Basic

/-!
# Text up to a delimiter

A scanner that holds back what may be the start of a delimiter, and starts over when it is not.
Where the first symbol of the delimiter occurs nowhere else in it, the scanner finds the first
delimiter, and what it has let through then is the text before.
-/

namespace Delimiter

variable {α : Type*} [DecidableEq α]

/-- `out` has been let through, and `matched` symbols of the delimiter are held back. -/
structure Scan (α : Type*) where
  out : List α
  matched : Nat

/-- The text that has been scanned. -/
def Scan.text (d : List α) (s : Scan α) : List α := s.out ++ d.take s.matched

/-- One more symbol. -/
def step (d : List α) (s : Scan α) (c : α) : Scan α :=
  if d[s.matched]? = some c then { s with matched := s.matched + 1 }
  else if d.head? = some c then ⟨s.text d, 1⟩
  else ⟨s.text d ++ [c], 0⟩

variable {d tail text : List α} {a c : α} {s : Scan α}

theorem text_step (hd : d ≠ []) : (step d s c).text d = s.text d ++ [c] := by
  rw [step]
  split
  · next hmatch =>
    obtain ⟨hlt, hget⟩ := List.getElem?_eq_some_iff.mp hmatch
    show s.out ++ d.take (s.matched + 1) = s.out ++ d.take s.matched ++ [c]
    rw [List.take_succ_eq_append_getElem hlt, hget, List.append_assoc]
  · split
    · next hhead =>
      obtain ⟨a, tail, rfl⟩ := List.exists_cons_of_ne_nil hd
      rw [Option.some.inj hhead]
      rfl
    · exact List.append_nil _

theorem matched_step (hd : d ≠ []) (h : s.matched < d.length) :
    (step d s c).matched ≤ d.length := by
  have hpos := List.length_pos_iff.mpr hd
  rw [step]
  split
  · exact h
  · split
    · exact hpos
    · exact Nat.zero_le _

/-- The delimiter begins nowhere in the text, also when the delimiter follows it. -/
def Free (d text : List α) : Prop := ∀ i < text.length, ¬d <+: (text ++ d).drop i

instance : Decidable (Free d text) :=
  inferInstanceAs (Decidable (∀ i < text.length, ¬d <+: (text ++ d).drop i))

/-- Text in which the delimiter does not begin is let through, but for a start of the delimiter
at its end. -/
theorem foldl_step (text rest : List α) (s : Scan α) (hd : d ≠ []) (hs : s.matched < d.length)
    (h : Free d (s.text d ++ (text ++ rest))) :
    (text.foldl (step d) s).text d = s.text d ++ text ∧
      (text.foldl (step d) s).matched < d.length := by
  induction text generalizing s with
  | nil => exact ⟨(List.append_nil _).symm, hs⟩
  | cons c text ih =>
    have htext : (step d s c).text d = s.text d ++ [c] := text_step hd
    have hmove : ∀ l, s.text d ++ c :: l = (step d s c).text d ++ l := by
      intro l
      rw [htext, List.append_assoc, List.singleton_append]
    rw [List.cons_append, hmove] at h
    rw [hmove]
    refine ih _ (Nat.lt_of_le_of_ne (matched_step hd hs) ?_) h
    -- a full match would be a delimiter in the text
    intro hfull
    have hout : (step d s c).text d = (step d s c).out ++ d := by
      rw [Scan.text, hfull, List.take_length]
    have hpos := List.length_pos_iff.mpr hd
    refine h (step d s c).out.length ?_ ?_
    · rw [hout, List.length_append, List.length_append]
      omega
    · rw [hout, List.append_assoc, List.append_assoc, List.drop_left]
      exact List.prefix_append _ _

/-- The first symbol of a delimiter is found even when a partial match has failed on it. -/
theorem step_head (s : Scan α) (ha : a ∉ tail) :
    step (a :: tail) s a = ⟨s.text (a :: tail), 1⟩ := by
  rw [step]
  cases hm : s.matched with
  | zero =>
    rw [Scan.text, hm, List.take_zero, List.append_nil]
    exact if_pos rfl
  | succ m =>
    rw [if_neg]
    · exact if_pos rfl
    · intro hmatch
      exact ha (List.mem_of_getElem? hmatch)

/-- The symbols of the delimiter go on with a match. -/
theorem step_match (out : List α) {m : Nat} (hm : m < d.length) :
    step d ⟨out, m⟩ d[m] = ⟨out, m + 1⟩ := by
  rw [step]
  exact if_pos (List.getElem?_eq_getElem hm)

/-- The first symbol of the delimiter behind the text. -/
theorem foldl_step_head (ha : a ∉ tail) (h : Free (a :: tail) text) :
    step (a :: tail) (text.foldl (step (a :: tail)) ⟨[], 0⟩) a = ⟨text, 1⟩ := by
  obtain ⟨htext, _⟩ := foldl_step text [] ⟨[], 0⟩ (List.cons_ne_nil a tail) (Nat.succ_pos _)
    (by rwa [List.append_nil])
  rw [step_head _ ha, htext]
  rfl

end Delimiter
