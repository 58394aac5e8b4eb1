import Mathlib.Logic.Basic

/-!
# Partial machines and their runs

A machine is an initial state and a partial step function; a step that returns
`none` has no successor (the modelled process has aborted). A run takes only steps
that satisfy a side condition `ok`, which carries the contract of the callers.
-/

structure Machine (σ ι : Type*) where
  init : σ
  step : σ → ι → Option σ

namespace Machine

variable {σ ι : Type*} {M : Machine σ ι} {ok : σ → ι → Prop}

/-- The states reached from the initial one by steps that meet `ok`. -/
inductive Run (M : Machine σ ι) (ok : σ → ι → Prop) : σ → Prop
  | init : Run M ok M.init
  | step {s s' : σ} {a : ι} : Run M ok s → ok s a → M.step s a = some s' → Run M ok s'

/-- An inductive invariant holds in every state of every run. -/
theorem Run.invariant {I : σ → Prop} (hinit : I M.init)
    (hstep : ∀ s a s', I s → ok s a → M.step s a = some s' → I s')
    {s : σ} (h : Run M ok s) : I s := by
  induction h with
  | init => exact hinit
  | step _ hok hs ih => exact hstep _ _ _ ih hok hs

theorem Run.mono {ok' : σ → ι → Prop} (hok : ∀ s a, ok s a → ok' s a) {s : σ} (h : Run M ok s) :
    Run M ok' s := by
  induction h with
  | init => exact .init
  | step _ ha hs ih => exact .step ih (hok _ _ ha) hs

/-- Execute a list of inputs, stopping at the first one that is not `ok` or has no
successor. -/
def exec (M : Machine σ ι) (ok : σ → ι → Prop) [∀ s a, Decidable (ok s a)] :
    σ → List ι → Option σ
  | s, [] => some s
  | s, a :: as => if ok s a then (M.step s a).bind fun s' => exec M ok s' as else none

theorem Run.exec [∀ s a, Decidable (ok s a)] {s s' : σ} (as : List ι)
    (hs : Run M ok s) (he : M.exec ok s as = some s') : Run M ok s' := by
  induction as generalizing s with
  | nil =>
    cases he
    exact hs
  | cons a as ih =>
    simp only [Machine.exec] at he
    split at he
    · next hok =>
      obtain ⟨t, ht, he⟩ := Option.bind_eq_some_iff.mp he
      exact ih (.step hs hok ht) he
    · cases he

theorem Run.of_exec (M : Machine σ ι) (ok : σ → ι → Prop) [∀ s a, Decidable (ok s a)] (as : List ι)
    (h : (M.exec ok M.init as).isSome) : Run M ok ((M.exec ok M.init as).get h) :=
  Run.init.exec as (Option.some_get h).symm

section Observe

variable {τ : Type*}

/-- The machine together with an observer, which sees each step and never blocks one. -/
def observe (M : Machine σ ι) (x₀ : τ) (f : σ → τ → ι → τ) : Machine (σ × τ) ι where
  init := (M.init, x₀)
  step sx a := (M.step sx.1 a).map fun s' => (s', f sx.1 sx.2 a)

theorem observe_step {x₀ : τ} {f : σ → τ → ι → τ} {sx sx' : σ × τ} {a : ι}
    (h : (M.observe x₀ f).step sx a = some sx') :
    M.step sx.1 a = some sx'.1 ∧ sx'.2 = f sx.1 sx.2 a := by
  obtain ⟨s', hs, rfl⟩ := Option.map_eq_some_iff.mp h
  exact ⟨hs, rfl⟩

/-- A property of machine and observer that every step keeps holds along every run. -/
theorem Run.observe_invariant {x₀ : τ} {f : σ → τ → ι → τ} {okx : σ × τ → ι → Prop}
    {R : σ → τ → Prop} (hinit : R M.init x₀)
    (hstep : ∀ s x a s', R s x → okx (s, x) a → M.step s a = some s' → R s' (f s x a))
    {sx : σ × τ} (h : Run (M.observe x₀ f) okx sx) : R sx.1 sx.2 := by
  refine Run.invariant (I := fun sx : σ × τ => R sx.1 sx.2) hinit ?_ h
  rintro ⟨s, x⟩ a ⟨s', x'⟩ hR hok hs
  obtain ⟨hs', hx'⟩ := observe_step hs
  obtain rfl : x' = f s x a := hx'
  exact hstep s x a s' hR hok hs'

end Observe

end Machine

/-!
### Properties along a run

What holds of the state before each input and of the input, for a state that a function takes from
one input to the next.
-/

variable {σ ι : Type*}

/-- `P` holds at each step. -/
def Along (next : σ → ι → σ) (P : σ → ι → Prop) : σ → List ι → Prop
  | _, [] => True
  | s, a :: as => P s a ∧ Along next P (next s a) as

namespace Along

variable {next : σ → ι → σ} {P Q : σ → ι → Prop} {s : σ} {as : List ι}

instance decidable [∀ s a, Decidable (P s a)] : ∀ s as, Decidable (Along next P s as)
  | _, [] => isTrue trivial
  | s, a :: as =>
    have : Decidable (Along next P (next s a) as) := decidable _ _
    inferInstanceAs (Decidable (_ ∧ _))

/-- An invariant under which `P` gives `Q` and the invariant again. -/
theorem imp {I : σ → Prop} (hstep : ∀ s a, I s → P s a → Q s a ∧ I (next s a)) (h : I s)
    (hP : Along next P s as) : Along next Q s as := by
  induction as generalizing s with
  | nil => trivial
  | cons a as ih =>
    obtain ⟨hQ, hinv⟩ := hstep s a h hP.1
    exact ⟨hQ, ih hinv hP.2⟩

/-- Inputs that are `ok`, and an invariant that makes `P` and `Q` agree and that lasts while they
hold. -/
theorem iff_while {I : σ → Prop} {ok : ι → Prop}
    (hstep : ∀ s a, I s → ok a → (P s a ↔ Q s a) ∧ (Q s a → I (next s a)))
    (hok : ∀ a ∈ as, ok a) (h : I s) : Along next P s as ↔ Along next Q s as := by
  induction as generalizing s with
  | nil => exact Iff.rfl
  | cons a as ih =>
    obtain ⟨hfirst, hok⟩ := List.forall_mem_cons.mp hok
    obtain ⟨hiff, hinv⟩ := hstep s a h hfirst
    rw [Along, Along, hiff]
    exact and_congr_right fun hQ => ih hok (hinv hQ)

/-- The same where something else is known of the run. -/
theorem iff_given {I : σ → Prop} {R : σ → ι → Prop}
    (hstep : ∀ s a, I s → R s a → (P s a ↔ Q s a) ∧ (Q s a → I (next s a)))
    (hR : Along next R s as) (h : I s) : Along next P s as ↔ Along next Q s as := by
  induction as generalizing s with
  | nil => exact Iff.rfl
  | cons a as ih =>
    obtain ⟨hfirst, hR⟩ := hR
    obtain ⟨hiff, hinv⟩ := hstep s a h hfirst
    rw [Along, Along, hiff]
    exact and_congr_right fun hQ => ih hR (hinv hQ)

theorem iff {I : σ → Prop} {ok : ι → Prop}
    (hstep : ∀ s a, I s → ok a → (P s a ↔ Q s a) ∧ I (next s a)) (hok : ∀ a ∈ as, ok a) (h : I s) :
    Along next P s as ↔ Along next Q s as :=
  iff_while (fun s a hs ha => ⟨(hstep s a hs ha).1, fun _ => (hstep s a hs ha).2⟩) hok h

end Along
