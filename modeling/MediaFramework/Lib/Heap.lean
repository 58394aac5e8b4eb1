import Mathlib.Logic.Function.Basic
import Mathlib.Data.List.Nodup

/-!
# Heaps

Blocks at addresses that are given out in order, never twice. The release of a block that has been
released, or was never given out, is an error.
-/

structure Heap (α : Type*) where
  next : Nat
  blocks : Nat → Option α
  fresh : ∀ p, next ≤ p → blocks p = none

namespace Heap

variable {α : Type*} {h h' h'' : Heap α} {p q : Nat} {a : α} {ps ps' : List Nat}

def empty : Heap α := ⟨0, fun _ => none, fun _ _ => rfl⟩

def malloc (h : Heap α) (a : α) : Nat × Heap α :=
  (h.next, ⟨h.next + 1, Function.update h.blocks h.next (some a), fun p hp => by
    rw [Function.update_of_ne (by omega), h.fresh p (by omega)]⟩)

def free (h : Heap α) (p : Nat) : Option (Heap α) :=
  match h.blocks p with
  | none => none
  | some _ => some ⟨h.next, Function.update h.blocks p none, fun q hq => by
      rw [Function.update_apply]
      split
      · rfl
      · exact h.fresh q hq⟩

theorem lt_next (ha : h.blocks p = some a) : p < h.next := by
  by_contra hp
  rw [h.fresh p (by omega)] at ha
  cases ha

/-! ### What other blocks keep -/

/-- The blocks that there were, other than those of `ps`, are as before. -/
structure Keeps (ps : List Nat) (h h' : Heap α) : Prop where
  next : h.next ≤ h'.next
  blocks : ∀ p < h.next, p ∉ ps → h'.blocks p = h.blocks p

theorem Keeps.refl (h : Heap α) : Keeps [] h h := ⟨Nat.le_refl _, fun _ _ _ => rfl⟩

theorem Keeps.trans (hk : Keeps ps h h') (hk' : Keeps ps' h' h'')
    (hps' : ∀ p ∈ ps', p ∈ ps ∨ h.next ≤ p) : Keeps ps h h'' where
  next := Nat.le_trans hk.next hk'.next
  blocks p hp hps := by
    rw [hk'.blocks p (by have := hk.next; omega), hk.blocks p hp hps]
    intro hmem
    obtain hmem | hle := hps' p hmem
    · exact hps hmem
    · omega

theorem Keeps.mono (hk : Keeps ps h h') (hps : ∀ p ∈ ps, p ∈ ps') : Keeps ps' h h' :=
  ⟨hk.next, fun p hp hps' => hk.blocks p hp fun hmem => hps' (hps p hmem)⟩

theorem Keeps.read (hk : Keeps ps h h') (ha : h.blocks p = some a) (hp : p ∉ ps) :
    h'.blocks p = some a := by
  rw [hk.blocks p (lt_next ha) hp, ha]

theorem malloc_keeps (h : Heap α) (a : α) : Keeps [] h (h.malloc a).2 where
  next := Nat.le_succ _
  blocks _ hp _ := Function.update_of_ne (Nat.ne_of_lt hp) ..

theorem malloc_read (h : Heap α) (a : α) : (h.malloc a).2.blocks h.next = some a :=
  Function.update_self ..

theorem free_some (ha : h.blocks p = some a) : ∃ h', h.free p = some h' ∧ Keeps [p] h h' := by
  rw [free, ha]
  refine ⟨_, rfl, Nat.le_refl _, fun q _ hq => ?_⟩
  exact Function.update_of_ne (mt List.mem_singleton.mpr hq) ..

end Heap
