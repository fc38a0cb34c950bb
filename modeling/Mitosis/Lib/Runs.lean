import Mitosis.Lib.Keeps

namespace Mitosis
set_option autoImplicit true

namespace Prog
variable {C : Type} {R : C → Type} {α : Type} {exec : (c : C) → σ → R c → σ → Prop}

/-- What every command of a program keeps, the program keeps. -/
theorem Runs.invariant {P : σ → Prop} {ok : C → Prop} {K : List (Entry C R)} {p : Prog C R α}
    (h : p.Runs exec s b s') (hp : p.Knows (fun _ c => ok c) (fun _ _ => True) K)
    (hstep : ∀ c s r s', ok c → exec c s r s' → P s → P s') (hs : P s) : P s' := by
  induction p generalizing s K with
  | ret a =>
    obtain ⟨-, rfl⟩ := h
    exact hs
  | call c k ih =>
    obtain ⟨r, t, hx, h⟩ := h
    exact ih r h (hp.2 r) (hstep c s r t hp.1 hx hs)

theorem Runs.preserved {P : σ → Prop} {p : Prog C R α} (h : p.Runs exec s b s')
    (hstep : ∀ c s r s', exec c s r s' → P s → P s') (hs : P s) : P s' := by
  induction p generalizing s with
  | ret a =>
    obtain ⟨-, rfl⟩ := h
    exact hs
  | call c k ih =>
    obtain ⟨r, t, hx, h⟩ := h
    exact ih r h (hstep c s r t hx hs)

theorem run_ends {P : σ → Prop} {handler : (c : C) → σ → Option (R c × σ)}
    (h : ∀ c s, P s → ∃ r t, handler c s = some (r, t) ∧ P t) (p : Prog C R α) (hs : P s) :
    ∃ a t, p.run handler s = some (a, t) ∧ P t := by
  induction p generalizing s with
  | ret a => exact ⟨a, s, rfl, hs⟩
  | call c k ih =>
    obtain ⟨r, t, hx, ht⟩ := h c s hs
    obtain ⟨a, u, hk, hu⟩ := ih r ht
    exact ⟨a, u, Option.bind_eq_some_iff.2 ⟨(r, t), hx, hk⟩, hu⟩

/-- A program runs on the image of a state as it does on the state. -/
theorem Runs.map {exec' : (c : C) → τ → R c → τ → Prop} {p : Prog C R α} (f : σ → τ)
    (hf : ∀ c s r s', exec c s r s' → exec' c (f s) r (f s')) (h : p.Runs exec s b s') :
    p.Runs exec' (f s) b (f s') := by
  induction p generalizing s with
  | ret a =>
    obtain ⟨rfl, rfl⟩ := h
    exact ⟨rfl, rfl⟩
  | call c k ih =>
    obtain ⟨r, t, hx, h⟩ := h
    exact ⟨r, f t, hf c s r t hx, ih r h⟩

end Prog

namespace Fallible
variable {C ε : Type} {Ret : C → Type} {α β : Type}
  {exec : (c : C) → σ → Except ε (Ret c) → σ → Prop}

theorem Runs.invariant {P : σ → Prop} {ok : C → Prop} {p : Fallible C Ret ε α}
    {r : Except ε α} (h : Runs exec p s r s') (hp : Keeps (fun _ c => ok c) (fun _ => True) p)
    (hstep : ∀ c s r s', ok c → exec c s r s' → P s → P s') (hs : P s) : P s' :=
  Prog.Runs.invariant h (hp [] trivial) hstep hs

theorem runs_bind_error {e : ε} (p : Fallible C Ret ε β) (f : β → Fallible C Ret ε α) :
    Runs exec (p >>= f) s (.error e) s' ↔ Runs exec p s (.error e) s' ∨
      ∃ b t, Runs exec p s (.ok b) t ∧ Runs exec (f b) t (.error e) s' := by
  rw [runs_bind]
  constructor
  · rintro (h | ⟨e', h, he⟩)
    · exact .inr h
    · obtain ⟨⟩ := he
      exact .inl h
  · rintro (h | h)
    · exact .inr ⟨e, h, rfl⟩
    · exact .inl h

end Fallible
end Mitosis
