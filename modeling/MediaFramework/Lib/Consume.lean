import Mathlib.Logic.Basic

/-!
# Readers that use up their input

Rules for a reader with a state of its own: what it reads is the front of what is left, and what
is left then is the rest, whatever that is.
-/

namespace Consume

variable {σ τ α β : Type} {left : σ → List τ → Prop}

/-- The reader succeeds on `xs`, with a result of which `post` holds. `left` says what a state has
left to read. -/
def Reads (left : σ → List τ → Prop) (r : StateT σ Option α) (xs : List τ) (post : α → Prop) :
    Prop :=
  ∀ s rest, left s (xs ++ rest) → ∃ a s', r s = some (a, s') ∧ post a ∧ left s' rest

namespace Reads

theorem pure {a : α} {post : α → Prop} (h : post a) : Reads left (Pure.pure a) [] post := by
  intro s rest hs
  exact ⟨a, s, rfl, h, hs⟩

theorem mono {r : StateT σ Option α} {xs : List τ} {post post' : α → Prop}
    (h : Reads left r xs post) (hpost : ∀ a, post a → post' a) : Reads left r xs post' := by
  intro s rest hs
  obtain ⟨a, s', hr, ha, hs'⟩ := h s rest hs
  exact ⟨a, s', hr, hpost a ha, hs'⟩

theorem bind {r : StateT σ Option α} {k : α → StateT σ Option β} {xs xs' : List τ}
    {mid : α → Prop} {post : β → Prop} (h : Reads left r xs mid)
    (h' : ∀ a, mid a → Reads left (k a) xs' post) : Reads left (r >>= k) (xs ++ xs') post := by
  intro s rest hs
  rw [List.append_assoc] at hs
  obtain ⟨a, s₁, hr, hmid, hs₁⟩ := h s _ hs
  obtain ⟨b, s₂, hk, hpost, hs₂⟩ := h' a hmid s₁ rest hs₁
  refine ⟨b, s₂, ?_, hpost, hs₂⟩
  show (r s).bind _ = _
  rw [hr]
  exact hk

/-- Nothing more is read. -/
theorem last {r : StateT σ Option α} {k : α → StateT σ Option β} {xs : List τ} {mid : α → Prop}
    {post : β → Prop} (h : Reads left r xs mid) (h' : ∀ a, mid a → Reads left (k a) [] post) :
    Reads left (r >>= k) xs post := by
  have hbind := h.bind h'
  rwa [List.append_nil] at hbind

/-- A reader and a function of its result. -/
theorem map {r : StateT σ Option α} {f : α → β} {xs : List τ} {mid : α → Prop} {post : β → Prop}
    (h : Reads left r xs mid) (hf : ∀ a, mid a → post (f a)) :
    Reads left (r >>= fun a => Pure.pure (f a)) xs post :=
  h.last fun a ha => Reads.pure (hf a ha)

theorem ite {c d : Prop} [Decidable c] [Decidable d] {r r' : StateT σ Option α} {xs xs' : List τ}
    {post : α → Prop} (hcd : c ↔ d) (h : d → Reads left r xs post)
    (h' : ¬d → Reads left r' xs' post) :
    Reads left (if c then r else r') (if d then xs else xs') post := by
  by_cases hd : d
  · rw [if_pos hd, if_pos (hcd.mpr hd)]
    exact h hd
  · rw [if_neg hd, if_neg (hcd.not.mpr hd)]
    exact h' hd

end Reads

end Consume
