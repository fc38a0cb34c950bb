import Mitosis.Lib.Fallible

namespace Mitosis
set_option autoImplicit true

namespace Fallible
variable {C ε : Type} {Ret : C → Type} {α β : Type}
  {exec : (c : C) → σ → Option (Except ε (Ret c) × σ)}

def run (exec : (c : C) → σ → Option (Except ε (Ret c) × σ)) (p : Fallible C Ret ε α) (s : σ) :
    Option (Except ε α × σ) := Prog.run exec p s

theorem bind_assoc {γ : Type} (p : Fallible C Ret ε α) (f : α → Fallible C Ret ε β)
    (g : β → Fallible C Ret ε γ) : p >>= f >>= g = p >>= fun a => f a >>= g := by
  apply (Prog.bind_assoc _ _ _).trans
  refine congrArg (Prog.bind p) (funext fun r => ?_)
  cases r <;> rfl

@[simp] theorem run_pure (a : α) (s : σ) :
    run exec (pure a : Fallible C Ret ε α) s = some (.ok a, s) := rfl

@[simp] theorem run_fail (e : ε) (s : σ) :
    run exec (fail e : Fallible C Ret ε α) s = some (.error e, s) := rfl

@[simp] theorem run_issue (c : C) (s : σ) :
    run exec (issue c : Fallible C Ret ε (Ret c)) s = exec c s := by
  change ((exec c s).bind fun r => some (r.1, r.2)) = exec c s
  cases exec c s <;> rfl

@[simp] theorem run_okOr_some (e : ε) (a : α) (s : σ) :
    run exec (okOr e (some a) : Fallible C Ret ε α) s = some (.ok a, s) := rfl

@[simp] theorem run_okOr_none (e : ε) (s : σ) :
    run exec (okOr e none : Fallible C Ret ε α) s = some (.error e, s) := rfl

@[simp] theorem run_ofExcept (x : Except ε α) (s : σ) :
    run exec (ofExcept x : Fallible C Ret ε α) s = some (x, s) := by cases x <;> rfl

theorem run_bind_ok {p : Fallible C Ret ε β} (h : run exec p s = some (.ok b, t))
    (f : β → Fallible C Ret ε α) : run exec (p >>= f) s = run exec (f b) t := by
  apply (Prog.run_bind _ _ _ _).trans
  rw [show Prog.run exec p s = some (.ok b, t) from h]
  rfl

theorem run_bind_error {p : Fallible C Ret ε β} (h : run exec p s = some (.error e, t))
    (f : β → Fallible C Ret ε α) : run exec (p >>= f) s = some (.error e, t) := by
  apply (Prog.run_bind _ _ _ _).trans
  rw [show Prog.run exec p s = some (.error e, t) from h]
  rfl

theorem run_attempt {p : Fallible C Ret ε α} {r : Except ε α} (h : run exec p s = some (r, t)) :
    run exec (attempt p) s = some (.ok r, t) := by
  apply (Prog.run_bind _ _ _ _).trans
  rw [show Prog.run exec p s = some (r, t) from h]
  rfl

/-- A program that ends in a result runs its parts one after the other. -/
theorem run_bind_cases {p : Fallible C Ret ε β} {f : β → Fallible C Ret ε α} {r : Except ε α}
    (h : run exec (p >>= f) s = some (r, t)) :
    (∃ b u, run exec p s = some (.ok b, u) ∧ run exec (f b) u = some (r, t)) ∨
      ∃ e, run exec p s = some (.error e, t) ∧ r = .error e := by
  obtain ⟨⟨r', u⟩, hp, hr⟩ := Option.bind_eq_some_iff.1 ((Prog.run_bind _ _ _ _).symm.trans h)
  cases r' with
  | ok b => exact .inl ⟨b, u, hp, hr⟩
  | error e =>
    obtain ⟨⟩ := hr
    exact .inr ⟨e, hp, rfl⟩

theorem run_bind_cases_ok {p : Fallible C Ret ε β} {f : β → Fallible C Ret ε α}
    (h : run exec (p >>= f) s = some (.ok a, t)) :
    ∃ b u, run exec p s = some (.ok b, u) ∧ run exec (f b) u = some (.ok a, t) := by
  rcases run_bind_cases h with h | ⟨e, -, he⟩
  · exact h
  · cases he

end Fallible
end Mitosis
