import Mathlib.Data.List.Nodup
import Mathlib.Logic.Basic

/-!
# Folds and loops

What a fold over a list keeps when a step may fail, steps that make no difference in front of
a fold, and loops that wait for others.
-/

namespace Folds

variable {σ α : Type*} {step : σ → α → Option σ} {P : σ → Prop} {as : List α} {s s' : σ}

theorem cons_eq_some {a : α} : (a :: as).foldlM step s = some s' ↔
    ∃ s₁, step s a = some s₁ ∧ as.foldlM step s₁ = some s' := by
  rw [List.foldlM_cons]
  exact Option.bind_eq_some_iff

theorem invariant (hstep : ∀ a ∈ as, ∀ s s', P s → step s a = some s' → P s')
    (h : as.foldlM step s = some s') (hs : P s) : P s' := by
  induction as generalizing s with
  | nil =>
    obtain rfl : s = s' := Option.some.inj h
    exact hs
  | cons a as ih =>
    obtain ⟨s₁, hfirst, hrest⟩ := cons_eq_some.mp h
    obtain ⟨ha, has⟩ := List.forall_mem_cons.mp hstep
    exact ih has hrest (ha s s₁ hs hfirst)

theorem foldlM_some {f : σ → α → σ} (h : ∀ a ∈ as, ∀ s, step s a = some (f s a)) (s : σ) :
    as.foldlM step s = some (as.foldl f s) := by
  induction as generalizing s with
  | nil => rfl
  | cons a as ih =>
    obtain ⟨ha, has⟩ := List.forall_mem_cons.mp h
    rw [List.foldlM_cons, ha, List.foldl_cons]
    exact ih has (f s a)

/-- Steps of different kinds may be made in any order, with steps between them that do nothing. -/
theorem foldl_filter_perm {κ : Type*} {f : σ → α → σ} {counts : α → Bool} {kind : α → κ}
    {bs : List α} (hskip : ∀ s a, counts a = false → f s a = s)
    (hcomm : ∀ s a b, kind a ≠ kind b → f (f s a) b = f (f s b) a)
    (hperm : (as.filter counts).Perm bs) (hnodup : (bs.map kind).Nodup) (s : σ) :
    as.foldl f s = bs.foldl f s := by
  have hcounts : as.foldl f s = (as.filter counts).foldl f s := by
    rw [List.foldl_filter]
    congr 1
    funext s a
    split
    · rfl
    next hnot => exact hskip s a (Bool.eq_false_iff.mpr hnot)
  rw [hcounts]
  refine hperm.foldl_eq' ?_ s
  rintro a ha b hb s
  by_cases hkind : kind a = kind b
  · rw [List.inj_on_of_nodup_map hnodup (hperm.mem_iff.mp ha) (hperm.mem_iff.mp hb) hkind]
  · exact hcomm s a b hkind

/-- A step that is made again later on makes no difference where the others either undo it or do not
mind it. -/
theorem foldl_absorb {f : σ → α → σ} {a : α} (hself : ∀ s, f (f s a) a = f s a)
    (hother : ∀ b s, f (f s a) b = f s b ∨ f (f s a) b = f (f s b) a) (ha : a ∈ as) (s : σ) :
    as.foldl f (f s a) = as.foldl f s := by
  induction as generalizing s with
  | nil => cases ha
  | cons b as ih =>
    rw [List.foldl_cons, List.foldl_cons]
    obtain rfl | ha := List.mem_cons.mp ha
    · rw [hself]
    · obtain hundone | hswap := hother b s
      · rw [hundone]
      · rw [hswap, ih ha]

/-- So do several such steps. -/
theorem foldl_absorb_all {f : σ → α → σ} {bs : List α} (hself : ∀ a s, f (f s a) a = f s a)
    (hother : ∀ a b s, f (f s a) b = f s b ∨ f (f s a) b = f (f s b) a)
    (hbs : ∀ b ∈ bs, b ∈ as) (s : σ) : as.foldl f (bs.foldl f s) = as.foldl f s := by
  induction bs generalizing s with
  | nil => rfl
  | cons b bs ih =>
    obtain ⟨hb, hbs⟩ := List.forall_mem_cons.mp hbs
    rw [List.foldl_cons, ih hbs, foldl_absorb (hself b) (hother b) hb]

end Folds

/-!
## Loops that wait for others

A loop whose passes each meet something of the outside, until one of them ends it with a
result. It need not end.
-/

namespace Passes

variable {σ ε ρ : Type*} {pass : σ → ε → ρ ⊕ σ} {env : Nat → ε} {s : σ} {I : σ → Prop}

/-- The state after `k` passes, or the result once a pass has ended the loop. -/
def after (pass : σ → ε → ρ ⊕ σ) (s : σ) (env : Nat → ε) : Nat → ρ ⊕ σ
  | 0 => .inr s
  | k + 1 => (after pass s env k).elim .inl fun s => pass s (env k)

/-- While the loop runs it keeps what every pass keeps. -/
theorem after_invariant (hstart : I s)
    (hpass : ∀ i s s', I s → pass s (env i) = .inr s' → I s') {k : Nat} {s' : σ}
    (h : after pass s env k = .inr s') : I s' := by
  induction k generalizing s' with
  | zero =>
    obtain rfl : s = s' := Sum.inr.inj h
    exact hstart
  | succ k ih =>
    rw [after] at h
    cases hk : after pass s env k with
    | inl status =>
      rw [hk] at h
      cases h
    | inr t =>
      rw [hk] at h
      exact hpass k t s' (ih hk) h

/-- A loop whose every pass goes on never ends. -/
theorem after_running (hstart : I s) (hpass : ∀ i s, I s → ∃ s', pass s (env i) = .inr s' ∧ I s')
    (k : Nat) : ∃ s', after pass s env k = .inr s' ∧ I s' := by
  induction k with
  | zero => exact ⟨s, rfl, hstart⟩
  | succ k ih =>
    obtain ⟨t, hk, hI⟩ := ih
    rw [after, hk]
    exact hpass k t hI

end Passes
