import Mathlib.Data.List.Sort
import Mathlib.Order.Basic

/-!
# Reordering with bounded delay

Items arrive nearly sorted: at most `d` larger ones come before any of them. A buffer that keeps
the `d` largest items seen so far, and lets go of the smallest one whenever it holds more, then
lets them go in order. Items of equal rank keep the order in which they came.
-/

namespace ReorderBuffer

variable {α κ : Type*} [LinearOrder κ]

/-- Put an item after those that are not larger. -/
def place (rank : α → κ) (x : α) (stash : List α) : List α :=
  stash.orderedInsert (fun a b => rank a < rank b) x

/-- The items `es` have come, `out` were let go and `stash` is kept. -/
structure Ordered (rank : α → κ) (d : Nat) (es out stash : List α) : Prop where
  perm : (out ++ stash).Perm es
  sorted : (out ++ stash).Pairwise fun a b => rank a ≤ rank b
  stable : ∀ k, (out ++ stash).filter (rank · = k) = es.filter (rank · = k)
  le : stash.length ≤ d
  full : out ≠ [] → stash.length = d

variable {rank : α → κ} {x : α} {d : Nat} {es out stash : List α}

theorem place_perm (x : α) (stash : List α) : (place rank x stash).Perm (x :: stash) :=
  List.perm_orderedInsert _ x stash

theorem place_of_forall_le (h : ∀ y ∈ stash, rank y ≤ rank x) : place rank x stash = stash ++ [x] := by
  induction stash with
  | nil => rfl
  | cons y stash ih =>
    obtain ⟨hy, hstash⟩ := List.forall_mem_cons.mp h
    rw [place, List.orderedInsert_cons, if_neg (not_lt.mpr hy), ← place, ih hstash, List.cons_append]

theorem place_sorted (h : stash.Pairwise fun a b => rank a ≤ rank b) :
    (place rank x stash).Pairwise fun a b => rank a ≤ rank b := by
  induction stash with
  | nil => exact List.pairwise_singleton _ _
  | cons y stash ih =>
    obtain ⟨hy, hstash⟩ := List.pairwise_cons.mp h
    rw [place, List.orderedInsert_cons]
    split
    · next hlt =>
      refine List.pairwise_cons.mpr ⟨?_, h⟩
      intro z hz
      obtain rfl | hz := List.mem_cons.mp hz
      · exact le_of_lt hlt
      · exact le_trans (le_of_lt hlt) (hy z hz)
    · next hnot =>
      refine List.pairwise_cons.mpr ⟨?_, ih hstash⟩
      intro z hz
      obtain rfl | hz := List.mem_cons.mp ((place_perm x stash).mem_iff.mp hz)
      · exact not_lt.mp hnot
      · exact hy z hz

/-- Among its equals the new item is the last. -/
theorem place_filter (h : stash.Pairwise fun a b => rank a ≤ rank b) (k : κ) :
    (place rank x stash).filter (rank · = k) = (stash ++ [x]).filter (rank · = k) := by
  induction stash with
  | nil => rfl
  | cons y stash ih =>
    obtain ⟨hy, hstash⟩ := List.pairwise_cons.mp h
    rw [place, List.orderedInsert_cons]
    split
    · next hlt =>
      -- everything from `y` on is larger
      by_cases hx : rank x = k
      · have hnone : (y :: stash).filter (rank · = k) = [] := by
          apply List.filter_eq_nil_iff.mpr
          intro z hz
          have hle : rank y ≤ rank z := by
            obtain rfl | hz := List.mem_cons.mp hz
            · exact le_refl _
            · exact hy z hz
          have hne : rank z ≠ k := ne_of_gt (lt_of_lt_of_le (hx ▸ hlt) hle)
          simpa using hne
        rw [List.filter_append, hnone, List.filter_cons, hnone, List.nil_append, List.filter_cons,
          List.filter_nil]
      · rw [List.filter_append, List.filter_cons_of_neg (by simpa using hx)]
        simp [hx]
    · rw [List.cons_append, List.filter_cons, List.filter_cons]
      show (if _ then y :: (place rank x stash).filter _ else (place rank x stash).filter _) = _
      rw [ih hstash]

theorem Ordered.nil (rank : α → κ) (d : Nat) : Ordered rank d [] [] [] where
  perm := .refl _
  sorted := .nil
  stable := fun _ => rfl
  le := Nat.zero_le d
  full := fun h => absurd rfl h

/-- Nothing larger than the new item was let go: it would have gone with at least as much behind
it as the buffer holds. -/
theorem Ordered.out_le (h : Ordered rank d es out stash)
    (hx : (es.filter (rank x < rank ·)).length ≤ d) : ∀ p ∈ out, rank p ≤ rank x := by
  intro p hp
  by_contra hgt
  have hlt : rank x < rank p := not_le.mp hgt
  have hfull := h.full (List.ne_nil_of_mem hp)
  have hlarger : ∀ q ∈ stash, rank x < rank q := by
    intro q hq
    exact lt_of_lt_of_le hlt ((List.pairwise_append.mp h.sorted).2.2 p hp q hq)
  have hout : 0 < (out.filter (rank x < rank ·)).length :=
    List.length_pos_of_mem (List.mem_filter.mpr ⟨hp, by simpa using hlt⟩)
  have hstash : stash.filter (rank x < rank ·) = stash :=
    List.filter_eq_self.mpr fun q hq => by simpa using hlarger q hq
  have hcount := (h.perm.filter (rank x < rank ·)).length_eq
  rw [List.filter_append, List.length_append, hstash] at hcount
  omega

/-- A new item is placed and what is too much is let go. -/
theorem Ordered.emplace (h : Ordered rank d es out stash)
    (hx : (es.filter (rank x < rank ·)).length ≤ d) {moved rest : List α}
    (hsplit : place rank x stash = moved ++ rest) (hle : rest.length ≤ d)
    (hfull : moved ≠ [] → rest.length = d) :
    Ordered rank d (es ++ [x]) (out ++ moved) rest := by
  have hall : out ++ moved ++ rest = out ++ place rank x stash := by
    rw [List.append_assoc, hsplit]
  have hout := h.out_le hx
  obtain ⟨hsortedOut, hsortedStash, hcross⟩ := List.pairwise_append.mp h.sorted
  constructor
  · rw [hall]
    have hstash : (place rank x stash).Perm (stash ++ [x]) :=
      (place_perm x stash).trans (List.perm_append_singleton x stash).symm
    refine (hstash.append_left out).trans ?_
    rw [← List.append_assoc]
    exact h.perm.append_right [x]
  · rw [hall]
    refine List.pairwise_append.mpr ⟨hsortedOut, place_sorted hsortedStash, ?_⟩
    intro a ha b hb
    obtain rfl | hb := List.mem_cons.mp ((place_perm x stash).mem_iff.mp hb)
    · exact hout a ha
    · exact hcross a ha b hb
  · intro k
    rw [hall, List.filter_append, place_filter hsortedStash, ← List.filter_append,
      ← List.append_assoc, List.filter_append, h.stable, ← List.filter_append]
  · exact hle
  · intro hne
    by_cases hmoved : moved = []
    · have hstash := h.full (by simpa [hmoved] using hne)
      have hlen := congrArg List.length hsplit
      rw [(place_perm x stash).length_eq, hmoved, List.nil_append, List.length_cons] at hlen
      omega
    · exact hfull hmoved

end ReorderBuffer
