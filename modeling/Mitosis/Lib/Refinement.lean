import Mitosis.Lib.Table

namespace Mitosis
set_option autoImplicit true

/-- The runs of a step relation, with the labels of their steps. -/
inductive Steps (R : τ → β → τ → Prop) : τ → List β → τ → Prop
  | nil : Steps R a [] a
  | cons : R a l a' → Steps R a' ls a'' → Steps R a (l :: ls) a''

/-- A machine that reads inputs, some of which it accepts in a state. -/
structure Machine (σ α β : Type) where
  accepts : σ → α → Bool
  step : σ → α → σ
  label : σ → α → β

namespace Machine
variable {σ τ α β : Type} (M : Machine σ α β)

def after (s : σ) (xs : List α) : σ := xs.foldl M.step s

def acceptsAll (s : σ) : List α → Bool
  | [] => true
  | x :: xs => M.accepts s x && acceptsAll (M.step s x) xs

def labels (s : σ) : List α → List β
  | [] => []
  | x :: xs => M.label s x :: labels (M.step s x) xs

/-- A machine whose every step is a step of the abstract relation runs as the relation does. -/
theorem refines {R : τ → β → τ → Prop} {abs : σ → τ}
    (h : ∀ s x, M.accepts s x = true → R (abs s) (M.label s x) (abs (M.step s x))) :
    ∀ xs s, M.acceptsAll s xs = true → Steps R (abs s) (M.labels s xs) (abs (M.after s xs)) := by
  intro xs
  induction xs with
  | nil =>
    intro s _
    exact .nil
  | cons x xs ih =>
    intro s ha
    obtain ⟨hx, hxs⟩ := Bool.and_eq_true_iff.1 ha
    exact .cons (h s x hx) (ih (M.step s x) hxs)

end Machine

theorem Table.finite_find [DecidableEq κ] (t : Table κ ρ) : {k | (t.find k).isSome = true}.Finite := by
  apply (List.finite_toSet t.keys).subset
  intro k hk
  exact mem_keys.2 (Option.isSome_iff_exists.1 hk)

end Mitosis
