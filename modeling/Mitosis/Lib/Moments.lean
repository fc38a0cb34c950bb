import Mitosis.Lib.Sessions

namespace Mitosis
set_option autoImplicit true

namespace Sessions
variable {σ C K β φ ε : Type} {R : C → Type} {sys : System σ C R K β φ ε}
  {ok : Sessions σ C R K β → Act K φ ε → Prop} {s₀ s s' : Sessions σ C R K β}

/-- A step that session `i` made with entry `e` in a run, behind the history `L`. -/
structure Issued (sys : System σ C R K β φ ε) (ok : Sessions σ C R K β → Act K φ ε → Prop)
    (s₀ s : Sessions σ C R K β) (as : List (Act K φ ε)) (i : Nat) (e : Entry C R)
    (L : List (Entry C R)) (m m' : Sessions σ C R K β) : Prop where
  run : ∃ before after fault, as = before ++ .step i fault :: after ∧ Path (step sys) ok s₀ before m ∧
    ok m (.step i fault) ∧ step sys m (.step i fault) = some m' ∧ Path (step sys) ok m' after s ∧
    sys.exec i fault m.shared e.1 = some (e.2, m'.shared)
  before : history i m.log = L
  after : history i m'.log = e :: L

theorem Issued.later {e : Entry C R} (h : Issued sys ok s₀ s as i e L m m')
    (hp : Path (step sys) ok s bs s') : Issued sys ok s₀ s' (as ++ bs) i e L m m' := by
  obtain ⟨⟨before, after, fault, rfl, hm, hok, hst, hm', hx⟩, hb, ha⟩ := h
  refine ⟨⟨before, after ++ bs, fault, ?_, hm, hok, hst, hm'.trans hp, hx⟩, hb, ha⟩
  rw [List.append_assoc, List.cons_append]

theorem issued_of_history {e : Entry C R} (L' : List (Entry C R))
    (hp : Path (step sys) ok s₀ as s) (h₀ : (history i s₀.log).length ≤ L.length) (h : history i s.log = L' ++ e :: L) :
    ∃ m m', Issued sys ok s₀ s as i e L m m' := by
  induction hp generalizing L' with
  | nil =>
    rw [h, List.length_append, List.length_cons] at h₀
    omega
  | @snoc as s a s' hp ha hs ih =>
    have hlater : ∀ L', history i s.log = L' ++ e :: L →
        ∃ m m', Issued sys ok s₀ s' (as ++ [a]) i e L m m' := by
      intro L' hl
      obtain ⟨m, m', hi⟩ := ih L' hl
      have hlast : Path (step sys) ok s ([] ++ [a]) s' := .snoc .nil ha hs
      exact ⟨m, m', hi.later hlast⟩
    cases step_cases hs with
    | call => exact hlater L' h
    | env => exact hlater L' h
    | @step j fault x k c p r hi hx =>
      dsimp only at h
      by_cases hj : i = j
      · subst hj
        rw [history_concat_self] at h
        cases L' with
        | nil =>
          obtain ⟨rfl, rfl⟩ := List.cons.inj h
          exact ⟨s, _, ⟨as, [], fault, rfl, hp, ha, hs, .nil, hx⟩, rfl,
            history_concat_self _ _ _ _⟩
        | cons e' L' => exact hlater L' (List.cons.inj h).2
      · rw [history_concat_ne _ _ _ hj] at h
        exact hlater L' h

theorem issued_twice {e e' : Entry C R} (L' : List (Entry C R))
    (hp : Path (step sys) ok s₀ as s) (h₀ : (history i s₀.log).length ≤ L.length) (h : history i s.log = L' ++ e' :: e :: L) :
    ∃ m₁ m₁' m₂ m₂', Issued sys ok s₀ s as i e L m₁ m₁' ∧
      Issued sys ok s₀ s as i e' (e :: L) m₂ m₂' ∧ ∃ bs, Path (step sys) ok m₁ bs m₂ := by
  have h₁ : (history i s₀.log).length ≤ (e :: L).length := h₀.trans (Nat.le_succ _)
  obtain ⟨m₂, m₂', hi₂⟩ := issued_of_history L' hp h₁ h
  obtain ⟨before, after, fault, rfl, hm, hok, hst, hm', hx⟩ := hi₂.run
  obtain ⟨m₁, m₁', hi₁⟩ := issued_of_history [] hm h₀ hi₂.before
  obtain ⟨before₁, after₁, fault₁, rfl, hm₁, hok₁, hst₁, hm₁', hx₁⟩ := hi₁.run
  have hone : Path (step sys) ok m₂ ([] ++ [.step i fault]) m₂' := .snoc .nil hok hst
  have hone₁ : Path (step sys) ok m₁ ([] ++ [.step i fault₁]) m₁' := .snoc .nil hok₁ hst₁
  exact ⟨m₁, m₁', m₂, m₂', hi₁.later (hone.trans hm'), hi₂, _, hone₁.trans hm₁'⟩

theorem Traced.unstarted {need : K → List (Entry C R) → C → Prop}
    {post : K → List (Entry C R) → Flow β → Prop} (h : s.Traced need post)
    (hi : s.pool.length ≤ i) : history i s.log = [] := by
  apply List.eq_nil_iff_forall_not_mem.2
  intro e he
  obtain ⟨k, hm⟩ := mem_history.1 he
  obtain ⟨t, ht, -⟩ := h.calls _ hm
  exact Nat.lt_irrefl _ ((List.getElem?_eq_some_iff.1 ht).1.trans_le hi)

/-- A session that makes a step has started and has not returned. -/
theorem pending_of_step {fault : φ} (h : step sys s (.step i fault) = some s') :
    i < s.pool.length ∧ s.result i = none := by
  cases step_cases h with
  | step hi =>
    refine ⟨(List.getElem?_eq_some_iff.1 hi).1, ?_⟩
    rw [result, hi]
    rfl

end Sessions
end Mitosis
