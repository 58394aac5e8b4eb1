import Mathlib.Algebra.Ring.Nat
import Mathlib.Data.List.GetD
import Mathlib.Order.Basic
import Mathlib.Data.List.Basic

/-!
# Run-length encoded tables

A table is a list of runs, each a count and a value that is repeated as often. Lookups
and prefix sums of the expanded table go run by run.
-/

namespace RunLength

variable {α : Type*}

/-- The table, value by value. -/
def expand (runs : List (Nat × α)) : List α :=
  runs.flatMap fun run => List.replicate run.1 run.2

@[simp] theorem expand_nil : expand ([] : List (Nat × α)) = [] := rfl

@[simp] theorem expand_cons (n : Nat) (a : α) (runs : List (Nat × α)) :
    expand ((n, a) :: runs) = List.replicate n a ++ expand runs := rfl

/-- The number of values up to the end of the run that position `k` is in, or of all if
there is no such run. -/
def runEnd (k : Nat) : List (Nat × α) → Nat
  | [] => 0
  | (n, _) :: runs => if k < n then n else n + runEnd (k - n) runs

theorem getD_expand_of_lt {n k : Nat} (h : k < n) (a d : α) (runs : List (Nat × α)) :
    (expand ((n, a) :: runs)).getD k d = a := by
  rw [expand_cons, List.getD_append _ _ _ _ (by simpa using h), List.getD_replicate _ h]

theorem getD_expand_of_ge {n k : Nat} (h : n ≤ k) (a d : α) (runs : List (Nat × α)) :
    (expand ((n, a) :: runs)).getD k d = (expand runs).getD (k - n) d := by
  rw [expand_cons, List.getD_append_right _ _ _ _ (by simpa using h), List.length_replicate]

theorem sum_expand_cons (n a : Nat) (runs : List (Nat × Nat)) :
    (expand ((n, a) :: runs)).sum = n * a + (expand runs).sum := by
  rw [expand_cons, List.sum_append_nat, List.sum_replicate_nat]

theorem sum_take_expand_of_le {n k : Nat} (h : k ≤ n) (a : Nat) (runs : List (Nat × Nat)) :
    ((expand ((n, a) :: runs)).take k).sum = k * a := by
  rw [expand_cons, List.take_append_of_le_length (by simpa using h), List.take_replicate,
    Nat.min_eq_left h, List.sum_replicate_nat]

theorem sum_take_expand_of_ge {n k : Nat} (h : n ≤ k) (a : Nat) (runs : List (Nat × Nat)) :
    ((expand ((n, a) :: runs)).take k).sum = n * a + ((expand runs).take (k - n)).sum := by
  rw [expand_cons, List.take_append, List.take_replicate, Nat.min_eq_right h, List.sum_append_nat,
    List.sum_replicate_nat, List.length_replicate]

end RunLength

/-!
### Resumable scans

A scan walks a list for a numeric key with a cursor that stays where the last scan
stopped. Each position of the cursor has a base; as long as the key is not below the base
of the cursor, resuming there gives what a scan from the start gives.
-/

/-- At each element a scan either stops with a result or moves the cursor past it. Keys that
are not below the new base agree on the move. -/
structure Scan (ι σ ρ : Type*) where
  /-- The result at the end of the list. -/
  last : Nat → σ → ρ
  /-- The decision at an element, which may look at the elements after it. -/
  next : Nat → ι → List ι → σ → ρ ⊕ σ
  base : σ → Nat
  pos : σ → Nat
  /-- What moves keep of the cursor. -/
  inv : σ → Prop
  pos_next : ∀ {k e rest c c'}, next k e rest c = .inr c' → pos c' = pos c + 1
  inv_next : ∀ {k e rest c c'}, inv c → next k e rest c = .inr c' → inv c'
  base_le : ∀ {k e rest c c'}, inv c → next k e rest c = .inr c' → base c ≤ base c'
  base_le_key : ∀ {k e rest c c'}, next k e rest c = .inr c' → base c' ≤ k
  next_congr : ∀ {k k' e rest c c'}, next k e rest c = .inr c' → base c' ≤ k' →
    next k' e rest c = .inr c'

namespace Scan

variable {ι σ ρ : Type*} (S : Scan ι σ ρ) {k : Nat} {all rest : List ι} {c₀ c : σ}

def run (k : Nat) : List ι → σ → ρ
  | [], c => S.last k c
  | e :: rest, c =>
    match S.next k e rest c with
    | .inl r => r
    | .inr c' => run k rest c'

/-- The cursors that scans starting from `c₀` can leave behind, with the list after them. -/
inductive Reached (all : List ι) (c₀ : σ) : List ι → σ → Prop
  | start : Reached all c₀ all c₀
  | move {k : Nat} {e : ι} {rest : List ι} {c c' : σ} : Reached all c₀ (e :: rest) c → S.next k e rest c = .inr c' →
    Reached all c₀ rest c'

theorem Reached.inv (h : S.Reached all c₀ rest c) (h₀ : S.inv c₀) : S.inv c := by
  induction h with
  | start => exact h₀
  | move _ hn ih => exact S.inv_next ih hn

/-- A scan resumed from a reached cursor is a scan from the start. -/
theorem run_resume (h : S.Reached all c₀ rest c) (h₀ : S.inv c₀) (hk : S.base c ≤ k) :
    S.run k rest c = S.run k all c₀ := by
  induction h with
  | start => rfl
  | move hr hn ih =>
    have hmove := S.next_congr hn hk
    have hprev := ih (Nat.le_trans (S.base_le (Reached.inv S hr h₀) hn) hk)
    rw [run, hmove] at hprev
    exact hprev

theorem Reached.rest_eq (h : S.Reached all c₀ rest c) (h₀ : S.pos c₀ = 0) :
    rest = all.drop (S.pos c) := by
  induction h with
  | start => rw [h₀, List.drop_zero]
  | move _ hn ih => rw [S.pos_next hn, ← List.tail_drop, ← ih, List.tail_cons]

/-- Where a scan stops: at the end of the list, or at an element with a result. -/
inductive Stops (k : Nat) : List ι → σ → ρ → Prop
  | last {c : σ} : Stops k [] c (S.last k c)
  | here {e : ι} {rest : List ι} {c : σ} {r : ρ} : S.next k e rest c = .inl r →
    Stops k (e :: rest) c r

theorem run_stops_from (h : S.Reached all c₀ rest c) (hk : S.base c ≤ k) :
    ∃ rest' c', S.Reached all c₀ rest' c' ∧ S.base c' ≤ k ∧ S.Stops k rest' c' (S.run k rest c) := by
  induction rest generalizing c with
  | nil => exact ⟨[], c, h, hk, .last⟩
  | cons e rest ih =>
    cases hn : S.next k e rest c with
    | inl r =>
      refine ⟨e :: rest, c, h, hk, ?_⟩
      simp only [run, hn]
      exact .here hn
    | inr c' =>
      simp only [run, hn]
      exact ih (h.move hn) (S.base_le_key hn)

/-- A scan from the start stops at a reached cursor whose base is not above the key. -/
theorem run_stops (all : List ι) (c₀ : σ) (hk : S.base c₀ ≤ k) :
    ∃ rest c, S.Reached all c₀ rest c ∧ S.base c ≤ k ∧ S.Stops k rest c (S.run k all c₀) :=
  S.run_stops_from .start hk

end Scan
