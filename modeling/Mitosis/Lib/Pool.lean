import Mitosis.Lib.Prog

namespace Mitosis
set_option autoImplicit true

/-- How an iteration of a loop ends: with another iteration, or with the result. -/
inductive Flow (α : Type) where
  | again
  | done (a : α)

/-- A call together with the rest of the program that serves it. -/
structure Thread (C : Type) (R : C → Type) (K β : Type) where
  call : K
  prog : Prog C R (Flow β)

namespace Thread
variable {C : Type} {R : C → Type} {K β σ : Type}

def start (program : K → Prog C R (Flow β)) (call : K) : Thread C R K β :=
  ⟨call, program call⟩

/-- Continue with `p`, or with the next iteration if `p` ends one. -/
def resume (program : K → Prog C R (Flow β)) (t : Thread C R K β) :
    Prog C R (Flow β) → Thread C R K β
  | .ret .again => start program t.call
  | p => ⟨t.call, p⟩

def result (t : Thread C R K β) : Option β :=
  match t.prog with
  | .ret (.done b) => some b
  | _ => none

/-- The next command of the thread, executed on the shared state. -/
def step (program : K → Prog C R (Flow β)) (exec : (c : C) → Option (R c × σ))
    (t : Thread C R K β) : Option (Thread C R K β × σ) :=
  match t.prog with
  | .ret _ => none
  | .call c k => (exec c).map fun r => (t.resume program (k r.1), r.2)

theorem step_some {program : K → Prog C R (Flow β)} {exec : (c : C) → Option (R c × σ)}
    {t t' : Thread C R K β} {s' : σ} (h : t.step program exec = some (t', s')) :
    ∃ c k r, t.prog = .call c k ∧ exec c = some (r, s') ∧ t' = t.resume program (k r) := by
  obtain ⟨call, prog⟩ := t
  cases prog with
  | ret a => cases h
  | call c k =>
    obtain ⟨⟨r, s⟩, hr, he⟩ := Option.map_eq_some_iff.1 h
    obtain ⟨rfl, rfl⟩ := Prod.mk.injEq _ _ _ _ ▸ he
    exact ⟨c, k, r, rfl, hr, rfl⟩

@[simp] theorem resume_call (program : K → Prog C R (Flow β)) (t : Thread C R K β)
    (p : Prog C R (Flow β)) : (t.resume program p).call = t.call := by
  rcases p with ⟨_ | _⟩ | _ <;> rfl

theorem resume_cases (program : K → Prog C R (Flow β)) (t : Thread C R K β)
    (p : Prog C R (Flow β)) : p = .ret .again ∧ t.resume program p = start program t.call ∨
      p ≠ .ret .again ∧ t.resume program p = ⟨t.call, p⟩ := by
  rcases p with ⟨_ | _⟩ | _
  · exact .inl ⟨rfl, rfl⟩
  · exact .inr ⟨nofun, rfl⟩
  · exact .inr ⟨nofun, rfl⟩

end Thread

theorem getElem?_concat {l : List α} (h : (l ++ [a])[i]? = some b) :
    l[i]? = some b ∨ i = l.length ∧ b = a := by
  rw [List.getElem?_append] at h
  split at h
  next => exact .inl h
  next hi =>
    rw [List.getElem?_singleton] at h
    split at h
    next hs =>
      obtain ⟨⟩ := h
      exact .inr ⟨by omega, rfl⟩
    next => cases h

theorem getElem?_set {l : List α} (h : (l.set j a)[i]? = some b) :
    i = j ∧ b = a ∨ i ≠ j ∧ l[i]? = some b := by
  rw [List.getElem?_set] at h
  split at h
  next hi =>
    split at h
    next =>
      obtain ⟨⟩ := h
      exact .inl ⟨hi.symm, rfl⟩
    next => cases h
  next hi => exact .inr ⟨Ne.symm hi, h⟩

/-- Runs of a partial step function in which every step satisfies `ok`. -/
inductive Path (step : σ → α → Option σ) (ok : σ → α → Prop) (s : σ) : List α → σ → Prop
  | nil : Path step ok s [] s
  | snoc : Path step ok s as s' → ok s' a → step s' a = some s'' →
    Path step ok s (as ++ [a]) s''

namespace Path
variable {step : σ → α → Option σ} {ok : σ → α → Prop}

/-- What holds at the start and is preserved by every step holds at the end. -/
theorem invariant {P : σ → Prop} (hp : Path step ok s as s') (hs : P s)
    (hstep : ∀ s a s', P s → ok s a → step s a = some s' → P s') : P s' := by
  induction hp with
  | nil => exact hs
  | snoc _ ha hst ih => exact hstep _ _ _ ih ha hst

theorem mono {ok' : σ → α → Prop} (hp : Path step ok s as s')
    (h : ∀ s a, ok s a → ok' s a) : Path step ok' s as s' := by
  induction hp with
  | nil => exact .nil
  | snoc _ ha hst ih => exact .snoc ih (h _ _ ha) hst

theorem trans (hp : Path step ok s as s') (hq : Path step ok s' bs s'') :
    Path step ok s (as ++ bs) s'' := by
  induction hq with
  | nil => rwa [List.append_nil]
  | snoc _ hb hst ih =>
    rw [← List.append_assoc]
    exact .snoc ih hb hst

/-- Follow the actions while every one of them passes the test. -/
def follow (step : σ → α → Option σ) (ok : σ → α → Bool) : σ → List α → Option σ
  | s, [] => some s
  | s, a :: as => if ok s a then (step s a).bind fun s => follow step ok s as else none

theorem of_follow {ok : σ → α → Bool} (h : follow step ok s as = some s') :
    Path step (fun s a => ok s a = true) s as s' := by
  induction as generalizing s with
  | nil =>
    obtain ⟨⟩ := h
    exact .nil
  | cons a as ih =>
    rw [follow] at h
    split at h
    next ha =>
      obtain ⟨s₁, hs, hf⟩ := Option.bind_eq_some_iff.1 h
      have hp : Path step (fun s a => ok s a = true) s ([] ++ [a]) s₁ := .snoc .nil ha hs
      exact hp.trans (ih hf)
    next => cases h

theorem of_follow_any {ok : σ → α → Bool} {p : σ → Bool}
    (h : (follow step ok s as).any p = true) :
    ∃ s', Path step (fun s a => ok s a = true) s as s' ∧ p s' = true := by
  obtain ⟨s', hf, hp⟩ := (Option.any_eq_true _ _).1 h
  exact ⟨s', of_follow hf, hp⟩

end Path
end Mitosis
