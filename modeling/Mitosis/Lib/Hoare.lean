import Mitosis.Lib.Fallible

namespace Mitosis
set_option autoImplicit true

namespace Prog
variable {C σ : Type} {R : C → Type} {α β : Type}

/-- In the state `s`, with the entries `K` behind it, the program issues every command where `pre`
allows it, and every result satisfies `post`. -/
def Safe (exec : List (Entry C R) → σ → (c : C) → R c → σ → Prop)
    (pre : List (Entry C R) → σ → C → Prop) (post : List (Entry C R) → σ → α → Prop) :
    List (Entry C R) → σ → Prog C R α → Prop
  | K, s, ret a => post K s a
  | K, s, call c k => pre K s c ∧
      ∀ r s', exec K s c r s' → (k r).Safe exec pre post (⟨c, r⟩ :: K) s'

variable {exec : List (Entry C R) → σ → (c : C) → R c → σ → Prop}
  {pre : List (Entry C R) → σ → C → Prop} {K : List (Entry C R)} {s : σ}

theorem Safe.mono {post post' : List (Entry C R) → σ → α → Prop} {p : Prog C R α}
    (h : p.Safe exec pre post K s) (hpost : ∀ K s a, post K s a → post' K s a) :
    p.Safe exec pre post' K s := by
  induction p generalizing K s with
  | ret a => exact hpost K s a h
  | call c k ih =>
    refine ⟨h.1, ?_⟩
    intro r s' hx
    exact ih r (h.2 r s' hx)

theorem safe_bind {post : List (Entry C R) → σ → β → Prop} (p : Prog C R α)
    (f : α → Prog C R β) : (p.bind f).Safe exec pre post K s ↔
      p.Safe exec pre (fun K s a => (f a).Safe exec pre post K s) K s := by
  induction p generalizing K s with
  | ret a => rfl
  | call c k ih => simp only [bind, Safe, ih]

end Prog

namespace Fallible
variable {C σ ε : Type} {Ret : C → Type} {α β : Type}

/-- From every state that satisfies `P` the program is safe, and ends as `Q` says. -/
def Triple (exec : History C Ret ε → σ → (c : C) → Except ε (Ret c) → σ → Prop)
    (pre : History C Ret ε → σ → C → Prop) (P : History C Ret ε → σ → Prop)
    (p : Fallible C Ret ε α) (Q : History C Ret ε → σ → Except ε α → Prop) : Prop :=
  ∀ K s, P K s → Prog.Safe exec pre Q K s p

variable {exec : History C Ret ε → σ → (c : C) → Except ε (Ret c) → σ → Prop}
  {pre : History C Ret ε → σ → C → Prop} {P P' : History C Ret ε → σ → Prop}
  {Q Q' : History C Ret ε → σ → Except ε α → Prop}

theorem Triple.mono {p : Fallible C Ret ε α} (h : Triple exec pre P p Q)
    (hP : ∀ K s, P' K s → P K s) (hQ : ∀ K s r, Q K s r → Q' K s r) :
    Triple exec pre P' p Q' := by
  intro K s hs
  exact Prog.Safe.mono (h K s (hP K s hs)) hQ

theorem triple_pure (a : α) (h : ∀ K s, P K s → Q K s (.ok a)) :
    Triple exec pre P (pure a) Q := h

theorem triple_bind {M : History C Ret ε → σ → Except ε β → Prop} {p : Fallible C Ret ε β}
    {f : β → Fallible C Ret ε α} (hp : Triple exec pre P p M)
    (hf : ∀ b, Triple exec pre (fun K s => M K s (.ok b)) (f b) Q)
    (he : ∀ e K s, M K s (.error e) → Q K s (.error e)) : Triple exec pre P (p >>= f) Q := by
  intro K s hs
  apply (Prog.safe_bind _ _).2
  apply Prog.Safe.mono (hp K s hs)
  rintro K s (e | b) h
  · exact he e K s h
  · exact hf b K s h

theorem triple_attempt {Q : History C Ret ε → σ → Except ε (Except ε α) → Prop}
    {p : Fallible C Ret ε α} (h : Triple exec pre P p fun K s r => Q K s (.ok r)) :
    Triple exec pre P (attempt p) Q := by
  intro K s hs
  exact (Prog.safe_bind _ _).2 (h K s hs)

theorem triple_issue (c : C) {Q : History C Ret ε → σ → Except ε (Ret c) → Prop}
    (hpre : ∀ K s, P K s → pre K s c)
    (hx : ∀ K s r s', P K s → exec K s c r s' → Q (⟨c, r⟩ :: K) s' r) :
    Triple exec pre P (issue c) Q := by
  intro K s hs
  exact ⟨hpre K s hs, fun r s' hr => hx K s r s' hs hr⟩

end Fallible

/-- A program that runs alone and starts over, with what it did, latest first. -/
structure Solo (σ : Type) (C : Type) (R : C → Type) (β : Type) where
  shared : σ
  prog : Prog C R (Flow β)
  log : List (Entry C R)

namespace Solo
variable {σ C β φ : Type} {R : C → Type}

/-- The next iteration of a loop, or the rest of this one. -/
def resume (program : Prog C R (Flow β)) : Prog C R (Flow β) → Prog C R (Flow β)
  | .ret .again => program
  | p => p

def step (program : Prog C R (Flow β)) (exec : φ → σ → (c : C) → Option (R c × σ))
    (s : Solo σ C R β) (chance : φ) : Option (Solo σ C R β) :=
  match s.prog with
  | .ret _ => none
  | .call c p => (exec chance s.shared c).map fun r => {
      shared := r.2
      prog := resume program (p r.1)
      log := ⟨c, r.1⟩ :: s.log }

def next (s : Solo σ C R β) : Option C := s.prog.head

theorem step_some {program : Prog C R (Flow β)} {exec : φ → σ → (c : C) → Option (R c × σ)}
    {s s' : Solo σ C R β} (h : s.step program exec chance = some s') : ∃ c p r x,
      s.prog = .call c p ∧ exec chance s.shared c = some (r, x) ∧
      s' = ⟨x, resume program (p r), ⟨c, r⟩ :: s.log⟩ := by
  obtain ⟨shared, prog, log⟩ := s
  cases prog with
  | ret => cases h
  | call c p =>
    obtain ⟨⟨r, x⟩, hx, he⟩ := Option.map_eq_some_iff.1 h
    exact ⟨c, p, r, x, rfl, hx, he.symm⟩

theorem resume_cases (program p : Prog C R (Flow β)) :
    p = .ret .again ∧ resume program p = program ∨ resume program p = p := by
  rcases p with ⟨_ | _⟩ | _
  · exact .inl ⟨rfl, rfl⟩
  · exact .inr rfl
  · exact .inr rfl

variable {program : Prog C R (Flow β)} {exec : φ → σ → (c : C) → Option (R c × σ)}
  {ok : Solo σ C R β → φ → Prop} {E : List (Entry C R) → σ → (c : C) → R c → σ → Prop}
  {pre : List (Entry C R) → σ → C → Prop} {post : List (Entry C R) → σ → Flow β → Prop}

/-- A program that is safe when it starts, and whenever it starts over, is safe in every run. -/
theorem safe_of_path (hstart : program.Safe E pre post [] x₀)
    (hagain : ∀ K x, post K x .again → program.Safe E pre post K x)
    (hexec : ∀ (s : Solo σ C R β) chance c p r x, ok s chance → s.prog = .call c p →
      exec chance s.shared c = some (r, x) → E s.log s.shared c r x)
    (hp : Path (step program exec) ok ⟨x₀, program, []⟩ as s) :
    s.prog.Safe E pre post s.log s.shared := by
  apply hp.invariant
  · exact hstart
  · intro s chance s' h hok hs
    obtain ⟨c, p, r, x, hprog, hx, rfl⟩ := step_some hs
    rw [hprog] at h
    have hsafe := h.2 r x (hexec s chance c p r x hok hprog hx)
    rcases resume_cases program (p r) with ⟨ha, hr⟩ | hr
    · rw [ha] at hsafe
      dsimp only
      rw [hr]
      exact hagain _ _ hsafe
    · dsimp only
      rw [hr]
      exact hsafe

theorem pre_of_safe {s : Solo σ C R β} (h : s.prog.Safe E pre post s.log s.shared)
    (hn : s.next = some c) : pre s.log s.shared c := by
  obtain ⟨shared, prog, log⟩ := s
  cases prog with
  | ret => cases hn
  | call c' p =>
    obtain rfl := Option.some.inj hn
    exact h.1

end Solo
end Mitosis
