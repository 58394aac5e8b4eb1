import Mathlib.Logic.Basic

/-!
# Computations that may fail partway

A computation that fails leaves what it has written until then.
-/

variable {ε σ : Type}

/-- From a state with `P`, `m` ends with a value and a state that satisfy `Q`, or fails in one that
satisfies `E`. -/
def Partway {α : Type} (P : σ → Prop) (m : ExceptT ε (StateM σ) α) (Q : α → σ → Prop)
    (E : σ → Prop) : Prop :=
  ∀ s, P s →
    (∀ a, (m.run.run s).1 = .ok a → Q a (m.run.run s).2) ∧
      ∀ e, (m.run.run s).1 = .error e → E (m.run.run s).2

namespace Partway

variable {α β : Type} {P : σ → Prop} {Q : α → σ → Prop} {E : σ → Prop}

theorem pure {a : α} (h : ∀ s, P s → Q a s) : Partway P (Pure.pure a : ExceptT ε (StateM σ) α) Q E := by
  intro s hs
  refine ⟨?_, fun _ he => by cases he⟩
  rintro a' ha
  cases ha
  exact h s hs

theorem throw {e : ε} (h : ∀ s, P s → E s) :
    Partway P (MonadExcept.throw e : ExceptT ε (StateM σ) α) Q E :=
  fun s hs => ⟨fun _ ha => (by cases ha), fun _ _ => h s hs⟩

theorem bind {m : ExceptT ε (StateM σ) α} {f : α → ExceptT ε (StateM σ) β} {R : β → σ → Prop}
    (hm : Partway P m Q E) (hf : ∀ a, Partway (Q a) (f a) R E) : Partway P (m >>= f) R E := by
  intro s hs
  obtain ⟨hok, herror⟩ := hm s hs
  rw [ExceptT.run_bind, StateT.run_bind]
  cases hr : m.run.run s with
  | mk r s' =>
    rw [hr] at hok herror
    cases r with
    | error e => exact ⟨fun _ ha => (by cases ha), fun _ _ => herror e rfl⟩
    | ok a => exact hf a s' (hok a rfl)

theorem modify {g : σ → σ} {Q : PUnit → σ → Prop} (h : ∀ s, P s → Q ⟨⟩ (g s)) :
    Partway P (MonadState.modifyGet fun s => (⟨⟩, g s) : ExceptT ε (StateM σ) PUnit) Q E :=
  fun s hs => ⟨fun _ _ => h s hs, fun _ he => (by cases he)⟩

theorem ite {c : Prop} [Decidable c] {m m' : ExceptT ε (StateM σ) α}
    (hm : c → Partway P m Q E) (hm' : ¬c → Partway P m' Q E) :
    Partway P (if c then m else m') Q E := by
  split
  · next h => exact hm h
  · next h => exact hm' h

/-- What holds at the end either way. -/
theorem ends {m : ExceptT ε (StateM σ) α} (h : Partway P m (fun _ => E) E) (s : σ) (hs : P s) :
    E (m.run.run s).2 := by
  cases hr : (m.run.run s).1 with
  | ok a => exact (h s hs).1 a hr
  | error e => exact (h s hs).2 e hr

theorem weaken {P' : σ → Prop} {m : ExceptT ε (StateM σ) α} {Q' : α → σ → Prop} {E' : σ → Prop}
    (hm : Partway P m Q E) (hP : ∀ s, P' s → P s) (hQ : ∀ a s, Q a s → Q' a s)
    (hE : ∀ s, E s → E' s) : Partway P' m Q' E' :=
  fun s hs => ⟨fun a ha => hQ a _ ((hm s (hP s hs)).1 a ha),
    fun e he => hE _ ((hm s (hP s hs)).2 e he)⟩

end Partway
