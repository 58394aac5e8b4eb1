import Mathlib.Data.List.Basic

/-!
# Splitting a list in two

`Split l taken kept` says that `l` falls apart into the two others, each in the order of `l`.
-/

variable {α : Type*}

inductive Split : List α → List α → List α → Prop
  | nil : Split [] [] []
  | take (a : α) {l taken kept : List α} : Split l taken kept → Split (a :: l) (a :: taken) kept
  | keep (a : α) {l taken kept : List α} : Split l taken kept → Split (a :: l) taken (a :: kept)

namespace Split

variable {l taken kept : List α}

theorem sublist_taken (h : Split l taken kept) : taken.Sublist l := by
  induction h with
  | nil => exact .slnil
  | take a _ ih => exact ih.cons_cons a
  | keep a _ ih => exact ih.cons a

theorem sublist_kept (h : Split l taken kept) : kept.Sublist l := by
  induction h with
  | nil => exact .slnil
  | take a _ ih => exact ih.cons a
  | keep a _ ih => exact ih.cons_cons a

theorem perm (h : Split l taken kept) : (kept ++ taken).Perm l := by
  induction h with
  | nil => exact .refl _
  | take a _ ih => exact List.perm_middle.trans (ih.cons a)
  | keep a _ ih => exact ih.cons a

theorem length (h : Split l taken kept) : kept.length + taken.length = l.length := by
  rw [← List.length_append]
  exact h.perm.length_eq

theorem keepAll (l : List α) : Split l [] l := by
  induction l with
  | nil => exact .nil
  | cons a l ih => exact .keep a ih

theorem kept_eq (h : Split l [] kept) : kept = l := by
  generalize htaken : ([] : List α) = taken at h
  induction h with
  | nil => rfl
  | take a _ _ => cases htaken
  | keep a _ ih => rw [ih htaken]

/-- Without repetitions, what is kept is what is not taken. -/
theorem kept_eq_filter [DecidableEq α] (h : Split l taken kept) (hnodup : l.Nodup) :
    kept = l.filter (· ∉ taken) := by
  induction h with
  | nil => rfl
  | @take a l taken kept _ ih =>
    obtain ⟨ha, hnodup⟩ := List.nodup_cons.mp hnodup
    rw [List.filter_cons_of_neg (by simp), ih hnodup]
    refine List.filter_congr fun b hb => ?_
    have hne : b ≠ a := fun heq => ha (heq ▸ hb)
    simp [hne]
  | @keep a l taken kept hsplit ih =>
    obtain ⟨ha, hnodup⟩ := List.nodup_cons.mp hnodup
    have hnot : a ∉ taken := fun hmem => ha (hsplit.sublist_taken.subset hmem)
    rw [List.filter_cons_of_pos (by simpa using hnot), ← ih hnodup]

end Split
